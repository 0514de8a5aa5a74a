import DocTree.Proofs.Docs.Config
import DocTree.Proofs.Json.Relaxed.Literal

/-!
# Which texts are configurations

A text is accepted as a configuration only if every field that it gives is written as its type
demands (`Config.parse_givenBy`): `true` or `false` for the one that is a truth value, a string for the
others.  There is one exception: a number that is refused by the reader of numbers, since it is too large
(`Literal.IsRefused`), stands for its own text, and so passes for a string.  What a field is then set to
is not said here.

Fields are given by key or, in an array, by place, which is the same as an object with the keys in
their order (`Config.ofJson_array_eq_ok_iff`).
-/

namespace DocTree.Docs.Config

open Json.Relaxed (Gap Literal Number)

/-! ### Fields -/

/-- What a literal says for a field: `true` or `false` for the truth value, and a string for every other
field. -/
inductive Field.Says : Field → Literal → Json → Prop
  | string {field : Field} (hfield : field ≠ .strictCallouts) (s : String) :
    Says field (.string s) (.string s)
  | bool (b : Bool) : Says .strictCallouts (.bool b) (.bool b)

theorem Field.Says.toJson {field : Field} {l : Literal} {j : Json} (h : field.Says l j) :
    l.toJson = j := by
  cases h <;> rfl

theorem exists_get_eq_string (c : Config) {field : Field} (h : field ≠ .strictCallouts) :
    ∃ s, c.get field = .string s := by
  cases field with
  | strictCallouts => exact absurd rfl h
  | _ => exact ⟨_, rfl⟩

theorem not_isNumber_get (c : Config) (field : Field) : ¬ (c.get field).IsNumber := by
  cases field <;> exact id

/-- What a field has been set to is what is written for it, unless that is a refused number, which no
truth value is set to. -/
theorem says_of_toJson {c : Config} {field : Field} {l : Literal} (h : c.get field = l.toJson) :
    field.Says l (c.get field) ∨ field ≠ .strictCallouts ∧ l.IsRefused := by
  -- a truth value is that of the one field that has one, and no field is set to a container
  cases l with
  | null | array | object => cases field <;> cases h
  | bool b =>
    by_cases hfield : field = .strictCallouts
    · subst hfield
      rw [h]
      exact .inl (.bool b)
    · obtain ⟨s, hs⟩ := exists_get_eq_string c hfield
      rw [hs] at h
      cases h
  | string s =>
    have hfield : field ≠ .strictCallouts := by
      rintro rfl
      cases h
    rw [h]
    exact .inl (.string hfield s)
  | number n =>
    cases hn : n.toJson? with
    | some j =>
      rw [Literal.toJson, hn] at h
      exact absurd (h ▸ Number.isNumber_of_toJson? hn) (not_isNumber_get c field)
    | none =>
      have hfield : field ≠ .strictCallouts := by
        rintro rfl
        rw [Literal.toJson, hn] at h
        cases h
      exact .inr ⟨hfield, n, rfl, hn⟩

/-! ### Objects and arrays -/

/-- The members give the configuration: every key is that of a field, the last member with its key says
what the field is, and a field without a member has its default.  Nothing is said of a string for which
a refused number is written. -/
structure GivenBy (members : List (String × Literal)) (c : Config) : Prop where
  known : ∀ key ∈ members.map (·.1), ∃ field, Field.key field = key
  given : ∀ (field : Field) (l : Literal), Members.last? field.key members = some l →
    field.Says l (c.get field) ∨ field ≠ .strictCallouts ∧ l.IsRefused
  default : ∀ field : Field, field.key ∉ members.map (·.1) →
    c.get field = ({} : Config).get field

/-- No refused number is written for a field. -/
def Unrefused (members : List (String × Literal)) : Prop :=
  ∀ (field : Field) (l : Literal), Members.last? field.key members = some l → ¬ l.IsRefused

/-- The items under the keys of the fields in their places. -/
def byPlace {α : Type} (items : List α) : List (String × α) := (Field.all.map Field.key).zip items

/-- An object is a configuration just if every field is what its last member says as a value. -/
theorem ofJson_membersToJson_iff {members : List (String × Literal)} {c : Config} :
    ofJson (.object (Literal.membersToJson members)) = .ok c ↔
      (∀ key ∈ members.map (·.1), ∃ field, Field.key field = key) ∧
      ∀ field, c.get field = ((Members.last? (Field.key field) members).map Literal.toJson).getD
        (({} : Config).get field) := by
  have hkeys : (Literal.membersToJson members).map (·.1) = members.map (·.1) := by
    rw [Literal.membersToJson_eq_map, List.map_map]
    rfl
  rw [ofJson_object_eq_ok_iff, hkeys, Literal.membersToJson_eq_map]
  simp only [Members.last?_map]

theorem givenBy_of_ofJson {members : List (String × Literal)} {c : Config}
    (h : ofJson (.object (Literal.membersToJson members)) = .ok c) : GivenBy members c := by
  obtain ⟨hknown, hget⟩ := ofJson_membersToJson_iff.1 h
  refine ⟨hknown, fun field l hl => says_of_toJson ?_, fun field hfield => ?_⟩
  · rw [hget, hl]
    rfl
  · rw [hget, Option.not_isSome_iff_eq_none.1 (mt Members.isSome_last?_iff.1 hfield)]
    rfl

theorem ofJson_of_givenBy {members : List (String × Literal)} {c : Config} (h : GivenBy members c)
    (hunrefused : Unrefused members) : ofJson (.object (Literal.membersToJson members)) = .ok c := by
  refine ofJson_membersToJson_iff.2 ⟨h.known, fun field => ?_⟩
  cases hl : Members.last? field.key members with
  | some l =>
    have hsays := (h.given field l hl).resolve_right fun hrefused => hunrefused field l hl hrefused.2
    exact hsays.toJson.symm
  | none =>
    refine h.default field fun hmem => ?_
    rw [← Members.isSome_last?_iff, hl] at hmem
    cases hmem

theorem byPlace_eq_map {α : Type} (items : List α) :
    byPlace items = (Field.all.zip items).map fun a => (a.1.key, a.2) := by
  rw [byPlace, List.zip_map_left]
  rfl

theorem map_fst_zip_sublist {α β : Type} (as : List α) (bs : List β) :
    ((as.zip bs).map (·.1)).Sublist as := by
  induction as generalizing bs with
  | nil => exact .slnil
  | cons a as ih =>
    cases bs with
    | nil => exact List.nil_sublist _
    | cons b bs => exact (ih bs).cons_cons a

theorem nodup_keys_byPlace {α : Type} (items : List α) : ((byPlace items).map (·.1)).Nodup := by
  have hall : (Field.all.map Field.key).Nodup := by decide
  exact hall.sublist (map_fst_zip_sublist _ _)

theorem ofJson_object_of_nodup {members : List (String × Json)}
    (hkeys : (members.map (·.1)).Nodup) {c : Config} :
    ofJson (.object members) = .ok c ↔ members.foldlM setMember {} = .ok c := by
  have hlookup : ∀ key, Members.get? key members = Members.last? key members := fun key =>
    Option.ext fun value => by
      rw [Members.get?_eq_some_iff_mem hkeys, Members.last?_eq_some_iff_mem hkeys]
  rw [ofJson_object_eq_ok_iff, foldlM_setMember_eq_ok_iff hkeys]
  simp only [hlookup]

/-- An array says what an object with the keys of the fields in their order does. -/
theorem ofJson_array_eq_ok_iff {items : List Json} {c : Config} :
    ofJson (.array items) = .ok c ↔
      items.length ≤ Field.all.length ∧ ofJson (.object (byPlace items)) = .ok c := by
  have hset : (fun (c : Config) (a : Field × Json) => c.setMember (a.1.key, a.2)) =
      fun c a => c.set a.1 a.2 := by
    funext c a
    rw [setMember, Field.ofKey?_key]
  rw [ofJson_object_of_nodup (nodup_keys_byPlace items), byPlace_eq_map, List.foldlM_map, hset, ofJson]
  constructor
  · intro h
    obtain ⟨d, hd, h⟩ := exists_of_bind_eq_ok h
    split at h
    · cases h
    next hlength =>
      cases h
      exact ⟨Nat.not_lt.1 hlength, hd⟩
  · rintro ⟨hlength, h⟩
    rw [h]
    exact if_neg (Nat.not_lt.2 hlength)

theorem itemsToJson_byPlace (items : List Literal) :
    byPlace (Literal.itemsToJson items) = Literal.membersToJson (byPlace items) := by
  rw [Literal.itemsToJson_eq_map, Literal.membersToJson_eq_map, byPlace, byPlace, List.zip_map_right]
  rfl

/-- Only objects and arrays are configurations. -/
theorem isScalar_of_ofJson {j : Json} {c : Config} (h : ofJson j = .ok c) : j.isScalar = false := by
  cases j with
  | object | array => rfl
  | _ => cases h

/-! ### Whole texts -/

/-- The value in the text gives the members: it is an object that has them, or an array of no more items
than there are fields, which has them by place. -/
def HoldsMembers (text : String) (members : List (String × Literal)) : Prop :=
  (Literal.object members).IsValueOf text ∨ ∃ items : List Literal,
    (Literal.array items).IsValueOf text ∧ items.length ≤ Field.all.length ∧ members = byPlace items

theorem parse_of_holdsMembers {text : String} {members : List (String × Literal)} {c : Config}
    (h : HoldsMembers text members) :
    parse text = .ok c ↔ ofJson (.object (Literal.membersToJson members)) = .ok c := by
  rcases h with hobject | ⟨items, harray, hlength, rfl⟩
  · exact parse_eq_ok_iff_ofJson hobject.read
  · rw [parse_eq_ok_iff_ofJson harray.read, ← itemsToJson_byPlace, Literal.toJson,
      ofJson_array_eq_ok_iff, Literal.itemsToJson_eq_map, List.length_map, and_iff_right hlength]

/-- **Only well-typed configurations are accepted.**  An accepted text holds no value, and is the default
configuration, or it holds an object or an array whose members or items give the configuration.

A text without a value always is accepted, and so is one whose members give a configuration, if no refused
number is among them. -/
theorem parse_givenBy (text : String) :
    (∀ c, parse text = .ok c → Gap text.toList [] ∧ c = {} ∨
      ∃ members, HoldsMembers text members ∧ GivenBy members c) ∧
    (Gap text.toList [] → parse text = .ok {}) ∧
    ∀ members c, HoldsMembers text members → Unrefused members → GivenBy members c →
      parse text = .ok c := by
  refine ⟨fun c hparse => ?_, fun hgap => ?_, fun members c hholds hunrefused hgiven => ?_⟩
  · have h := hparse
    rw [parse] at h
    split at h
    · cases h
    next hnone =>
      cases h
      exact .inl ⟨Json.Relaxed.parse_eq_ok_none_iff.1 hnone, rfl⟩
    next j hj =>
      have hjson := (parse_eq_ok_iff_ofJson hj).1 hparse
      obtain ⟨l, hl, rfl⟩ := Json.Relaxed.exists_isValueOf hj
      cases l with
      | object members =>
        have hholds : HoldsMembers text members := .inl hl
        exact .inr ⟨members, hholds, givenBy_of_ofJson ((parse_of_holdsMembers hholds).1 hparse)⟩
      | array items =>
        obtain ⟨hlength, -⟩ := ofJson_array_eq_ok_iff.1 hjson
        rw [Literal.itemsToJson_eq_map, List.length_map] at hlength
        have hholds : HoldsMembers text (byPlace items) := .inr ⟨items, hl, hlength, rfl⟩
        exact .inr ⟨_, hholds, givenBy_of_ofJson ((parse_of_holdsMembers hholds).1 hparse)⟩
      | number n =>
        have hscalar := isScalar_of_ofJson hjson
        rw [Literal.isScalar_number] at hscalar
        cases hscalar
      | _ => cases hjson
  · rw [parse, Json.Relaxed.parse_eq_ok_none_iff.2 hgap]
  · exact (parse_of_holdsMembers hholds).2 (ofJson_of_givenBy hgiven hunrefused)

/-- A text with two fields. -/
def singleQuoted : String := "\x7bheadingClass:'x',strictCallouts:true\x7d"

theorem parse_givenBy_singleQuoted :
    parse singleQuoted = .ok { headingClass := "x", strictCallouts := true } ∧
    ∃ members, HoldsMembers singleQuoted members ∧
      GivenBy members { headingClass := "x", strictCallouts := true } := by
  have hparse : parse singleQuoted = .ok { headingClass := "x", strictCallouts := true } :=
    toOption_eq_some_iff.1 (by decide +kernel)
  rcases (parse_givenBy singleQuoted).1 _ hparse with ⟨-, hdefault⟩ | hgiven
  · exact absurd (congrArg Config.strictCallouts hdefault) (by decide)
  · exact ⟨hparse, hgiven⟩

/-- An array is accepted though it is no object, and a string is set though no string is written: there
is no quote in the second text. -/
theorem parse_array_and_large_number :
    (parse "[\"x\"]" = .ok { headingClass := "x" } ∧ ¬ Gap "[\"x\"]".toList [] ∧
      ∀ members, ¬ (Literal.object members).IsValueOf "[\"x\"]") ∧
    (parse "\x7bheadingClass:0x8000000000000000\x7d" =
        .ok { headingClass := "0x8000000000000000" } ∧
      ∀ quote ∈ ['"', '\''], quote ∉ "\x7bheadingClass:0x8000000000000000\x7d".toList) := by
  have harray : Json.Relaxed.parse "[\"x\"]" = .ok (some (.array [.string "x"])) := by rfl
  have hnumber : parse "\x7bheadingClass:0x8000000000000000\x7d" =
      .ok { headingClass := "0x8000000000000000" } := toOption_eq_some_iff.1 (by decide +kernel)
  refine ⟨⟨(parse_eq_ok_iff_ofJson harray).2 rfl, fun hgap => ?_, fun members hl => ?_⟩,
    hnumber, by simp⟩
  · rw [Json.Relaxed.parse_eq_ok_none_iff.2 hgap] at harray
    cases harray
  · rw [hl.read] at harray
    cases harray

end DocTree.Docs.Config
