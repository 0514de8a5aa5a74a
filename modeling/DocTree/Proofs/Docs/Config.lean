import DocTree.Docs.ConfigReader
import DocTree.Proofs.Json.DistinctKeys
import DocTree.Proofs.Json.Relaxed.Settings

/-!
# Configurations that are read back

A field that is set has the value that it was set to, and the other fields have theirs
(`Config.get_of_set`), so what an object says is decided key by key (`Config.ofJson_object_eq_ok_iff`).
So a configuration, or any part of it, is read back from its members, however these are written in
relaxed JSON (`Config.parse_spaced`).
-/

namespace DocTree.Docs.Config

open Json.Relaxed (Gap Spaced objectTokens spaced_write)

/-! ### Keys -/

@[simp] theorem Field.ofKey?_key (field : Field) : ofKey? field.key = some field := by
  cases field <;> rfl

theorem Field.mem_all (field : Field) : field ∈ all := by
  cases field <;> decide

theorem Field.key_of_ofKey? {key : String} {field : Field} (h : ofKey? key = some field) :
    field.key = key := by
  have hkey := List.find?_some h
  simpa using hkey

theorem Field.ofKey?_eq_some_iff {key : String} {field : Field} :
    ofKey? key = some field ↔ field.key = key :=
  ⟨key_of_ofKey?, fun h => h ▸ ofKey?_key field⟩

theorem Field.key_injective {field other : Field} (h : field.key = other.key) : field = other := by
  have hsome := ofKey?_key field
  rw [h, ofKey?_key] at hsome
  exact (Option.some.inj hsome).symm

/-! ### One field -/

theorem ext_get {c c' : Config} (h : ∀ field, c.get field = c'.get field) : c = c' := by
  obtain ⟨_, _, _, _, _, _, _⟩ := c
  obtain ⟨_, _, _, _, _, _, _⟩ := c'
  have h1 := h .headingClass
  have h2 := h .permalinkClass
  have h3 := h .permalinkLabel
  have h4 := h .permalinkText
  have h5 := h .calloutBaseClass
  have h6 := h .tableWrapperClass
  have h7 := h .strictCallouts
  simp only [get, Json.string.injEq, Json.bool.injEq] at h1 h2 h3 h4 h5 h6 h7
  rw [h1, h2, h3, h4, h5, h6, h7]

theorem stringOfJson_eq_ok_iff {j : Json} {s : String} : stringOfJson j = .ok s ↔ j = .string s := by
  cases j <;> simp [stringOfJson]

theorem boolOfJson_eq_ok_iff {j : Json} {b : Bool} : boolOfJson j = .ok b ↔ j = .bool b := by
  cases j <;> simp [boolOfJson]

/-- The value of a field can be set again. -/
theorem exists_set_get (c c' : Config) (field : Field) :
    ∃ d, c.set field (c'.get field) = .ok d := by
  cases field <;> exact ⟨_, rfl⟩

theorem get_of_set {c c' : Config} {field : Field} {value : Json} (h : c.set field value = .ok c')
    (other : Field) : c'.get other = if other = field then value else c.get other := by
  cases field with
  | strictCallouts =>
    obtain ⟨b, hb, h⟩ := exists_of_bind_eq_ok h
    obtain rfl := boolOfJson_eq_ok_iff.1 hb
    cases h
    cases other <;> rfl
  | _ =>
    obtain ⟨s, hs, h⟩ := exists_of_bind_eq_ok h
    obtain rfl := stringOfJson_eq_ok_iff.1 hs
    cases h
    cases other <;> rfl

theorem setMember_eq_ok_iff {c c' : Config} {key : String} {value : Json} :
    c.setMember (key, value) = .ok c' ↔ ∃ field, Field.key field = key ∧ c.set field value = .ok c' := by
  rw [setMember]
  cases hfield : Field.ofKey? key with
  | none =>
    refine ⟨nofun, ?_⟩
    rintro ⟨field, hkey, -⟩
    rw [Field.ofKey?_eq_some_iff.2 hkey] at hfield
    cases hfield
  | some field =>
    have hkey := Field.key_of_ofKey? hfield
    constructor
    · exact fun h => ⟨field, hkey, h⟩
    · rintro ⟨other, hother, h⟩
      obtain rfl := Field.key_injective (hkey.trans hother.symm)
      exact h

/-! ### All fields -/

/-- A member sets a field that no later one names. -/
theorem getD_get?_of_set {c d : Config} {field : Field} {value : Json}
    {rest : List (String × Json)} (hkey : field.key ∉ rest.map (·.1))
    (hset : c.set field value = .ok d) (other : Field) :
    (Members.get? other.key rest).getD (d.get other) =
      (Members.get? other.key ((field.key, value) :: rest)).getD (c.get other) := by
  rw [Members.get?_cons, get_of_set hset]
  by_cases hother : other = field
  · subst hother
    have hnone : Members.get? other.key rest = none := by
      rw [← Option.not_isSome_iff_eq_none, Members.isSome_get?_iff]
      exact hkey
    rw [if_pos rfl, if_pos rfl, hnone]
    rfl
  · rw [if_neg hother, if_neg fun h => hother (Field.key_injective h).symm]

/-- Members without repeated keys set the fields that they name. -/
theorem foldlM_setMember_eq_ok_iff {members : List (String × Json)}
    (hkeys : (members.map (·.1)).Nodup) {c c' : Config} :
    members.foldlM setMember c = .ok c' ↔
      (∀ key ∈ members.map (·.1), ∃ field, Field.key field = key) ∧
        ∀ field, c'.get field = (Members.get? field.key members).getD (c.get field) := by
  induction members generalizing c with
  | nil =>
    constructor
    · rintro ⟨⟩
      exact ⟨nofun, fun field => rfl⟩
    · rintro ⟨-, h⟩
      rw [ext_get h]
      rfl
  | cons head rest ih =>
    obtain ⟨key, value⟩ := head
    obtain ⟨hkey, hrest⟩ := List.nodup_cons.1 hkeys
    rw [List.foldlM_cons, List.map_cons, List.forall_mem_cons]
    constructor
    · intro h
      obtain ⟨d, hmember, hmore⟩ := exists_of_bind_eq_ok h
      obtain ⟨field, rfl, hset⟩ := setMember_eq_ok_iff.1 hmember
      obtain ⟨hknown, hget⟩ := (ih hrest).1 hmore
      exact ⟨⟨⟨field, rfl⟩, hknown⟩, fun other =>
        (hget other).trans (getD_get?_of_set hkey hset other)⟩
    · rintro ⟨⟨⟨field, rfl⟩, hknown⟩, hget⟩
      -- the field has the value in the end, so it can be set to it now
      have hvalue := hget field
      rw [Members.get?_cons, if_pos rfl, Option.getD_some] at hvalue
      obtain ⟨d, hset⟩ := exists_set_get c c' field
      rw [hvalue] at hset
      rw [setMember_eq_ok_iff.2 ⟨field, rfl, hset⟩]
      exact (ih hrest).2 ⟨hknown, fun other =>
        (hget other).trans (getD_get?_of_set hkey hset other).symm⟩

/-- An object is a configuration if all its members are fields with values of their types, of
equal keys the last one. -/
theorem ofJson_object_eq_ok_iff {members : List (String × Json)} {c : Config} :
    ofJson (.object members) = .ok c ↔
      (∀ key ∈ members.map (·.1), ∃ field, Field.key field = key) ∧
        ∀ field, c.get field =
          (Members.last? field.key members).getD (({} : Config).get field) := by
  rw [ofJson, foldlM_setMember_eq_ok_iff
    (Members.nodup_of_increasing (Members.increasing_sorted members))]
  simp only [Members.mem_keys_sorted_iff, Members.get?_sorted]

/-! ### Some fields -/

/-- Each field can have its value from another configuration. -/
theorem exists_get_eq (choose : Field → Config) :
    ∃ c : Config, ∀ field, c.get field = (choose field).get field := by
  refine ⟨{
    headingClass := (choose .headingClass).headingClass
    permalinkClass := (choose .permalinkClass).permalinkClass
    permalinkLabel := (choose .permalinkLabel).permalinkLabel
    permalinkText := (choose .permalinkText).permalinkText
    calloutBaseClass := (choose .calloutBaseClass).calloutBaseClass
    tableWrapperClass := (choose .tableWrapperClass).tableWrapperClass
    strictCallouts := (choose .strictCallouts).strictCallouts }, fun field => ?_⟩
  cases field <;> rfl

/-- The members that say some fields of a configuration. -/
def members (c : Config) (fields : List Field) : List (String × Json) :=
  fields.map fun field => (field.key, c.get field)

theorem isSetting_get (c : Config) (field : Field) : Json.Relaxed.IsSetting (c.get field) := by
  cases field <;> trivial

theorem keys_members (c : Config) (fields : List Field) :
    (c.members fields).map (·.1) = fields.map Field.key := by
  rw [members, List.map_map]
  rfl

theorem nodup_keys_members (c : Config) {fields : List Field} (h : fields.Nodup) :
    ((c.members fields).map (·.1)).Nodup := by
  rw [keys_members]
  exact List.pairwise_map.2 (h.imp fun hne heq => hne (Field.key_injective heq))

theorem last?_members (c : Config) {fields : List Field} (h : fields.Nodup) (field : Field) :
    Members.last? field.key (c.members fields) =
      if field ∈ fields then some (c.get field) else none := by
  by_cases hfield : field ∈ fields
  · rw [if_pos hfield, Members.last?_eq_some_iff_mem (nodup_keys_members c h)]
    exact List.mem_map_of_mem hfield
  · rw [if_neg hfield, ← Option.not_isSome_iff_eq_none, Members.isSome_last?_iff, keys_members]
    rintro hkey
    obtain ⟨other, hother, heq⟩ := List.mem_map.1 hkey
    exact hfield (Field.key_injective heq ▸ hother)

theorem ofJson_members (c : Config) {fields : List Field} (h : fields.Nodup) {c' : Config}
    (hget : ∀ field, c'.get field = if field ∈ fields then c.get field else ({} : Config).get field) :
    ofJson (.object (c.members fields)) = .ok c' := by
  refine ofJson_object_eq_ok_iff.2 ⟨fun key hkey => ?_, fun field => ?_⟩
  · rw [keys_members] at hkey
    obtain ⟨field, -, hfield⟩ := List.mem_map.1 hkey
    exact ⟨field, hfield⟩
  · rw [hget, last?_members c h]
    split <;> rfl

/-! ### Whole texts -/

theorem parse_eq_ok_iff_ofJson {text : String} {j : Json} {c : Config}
    (htext : Json.Relaxed.parse text = .ok (some j)) : parse text = .ok c ↔ ofJson j = .ok c := by
  rw [parse, htext]
  exact mapError_eq_ok_iff

/-- Some fields of a configuration, in any order, are read back from their members, however white space
and comments are put around the tokens, and with a comma behind the last member or without; the other
fields have their defaults.  The JSON of a configuration is such a text of all fields. -/
theorem parse_spaced (c : Config) :
    (∀ (fields : List Field) (trailing : Bool) (text : String), fields.Nodup →
      Spaced (objectTokens trailing (c.members fields)) text.toList →
        ∃ c', parse text = .ok c' ∧ ∀ field, c'.get field =
          if field ∈ fields then c.get field else ({} : Config).get field) ∧
      parse c.toJson.render = .ok c := by
  have hparse : ∀ {fields : List Field} {trailing : Bool} {text : String} {c' : Config},
      fields.Nodup → Spaced (objectTokens trailing (c.members fields)) text.toList →
        (∀ field, c'.get field = if field ∈ fields then c.get field else ({} : Config).get field) →
          parse text = .ok c' := by
    intro fields trailing text c' hfields htext hget
    refine (parse_eq_ok_iff_ofJson (Json.Relaxed.parse_of_spaced (fun m hm => ?_) htext)).2
      (ofJson_members c hfields hget)
    obtain ⟨field, -, rfl⟩ := List.mem_map.1 hm
    exact isSetting_get c field
  refine ⟨fun fields trailing text hfields htext => ?_, ?_⟩
  · obtain ⟨c', hc'⟩ := exists_get_eq fun field => if field ∈ fields then c else {}
    have hget : ∀ field, c'.get field =
        if field ∈ fields then c.get field else ({} : Config).get field := by
      intro field
      rw [hc', apply_ite (Config.get · field)]
    exact ⟨c', hparse hfields htext hget, hget⟩
  · have hwritten : Spaced (objectTokens false (c.members Field.all)) c.toJson.render.toList := by
      rw [Json.render, String.toList_ofList]
      exact spaced_write (c.members Field.all)
    refine hparse (by decide) hwritten fun field => ?_
    rw [if_pos (Field.mem_all field)]

/-- A visible text of a permalink that looks like a comment, and strict callouts. -/
def sampleSettings : Config := { permalinkText := "/* \" */ // #", strictCallouts := true }

/-- The two settings, the later field first, with a comment before the first key, the first colon and
the last value, and a comma behind each. -/
def sampleText : String := String.ofList <|
  '{' :: ' ' :: '/' :: '/' :: '}' :: '\n' ::
    (Json.writeString "strictCallouts" ++ ('/' :: '*' :: '*' :: '/' :: ':' :: ' ' ::
      ('t' :: 'r' :: 'u' :: 'e' :: ',' ::
        (Json.writeString "permalinkText" ++ (':' :: '/' :: '*' :: '"' :: '*' :: '/' ::
          (Json.writeString "/* \" */ // #" ++ [',', '}', '\n']))))))

theorem spaced_sampleText :
    Spaced (objectTokens true (sampleSettings.members [.strictCallouts, .permalinkText]))
      sampleText.toList := by
  rw [sampleText, String.toList_ofList]
  refine ⟨['\n'], ?_, .blank (by decide) .nil⟩
  have hline : ∀ rest : List Char, Gap (' ' :: '/' :: '/' :: '}' :: '\n' :: rest) rest := fun rest =>
    .blank (by decide) (@Gap.line ['}'] rest rest (by decide) .nil)
  have hblock : ∀ rest : List Char, Gap ('/' :: '*' :: '*' :: '/' :: rest) rest := fun rest =>
    @Gap.block [] rest rest (by decide) .nil
  have hquote : ∀ rest : List Char, Gap ('/' :: '*' :: '"' :: '*' :: '/' :: rest) rest := fun rest =>
    @Gap.block ['"'] rest rest (by decide) .nil
  refine .cons .nil (.cons (hline _) (.cons (hblock _) (.cons (.blank (by decide) .nil) (.cons .nil ?_))))
  exact .cons .nil (.cons .nil (.cons (hquote _) (.cons .nil (.cons .nil .nil))))

theorem parse_spaced_sampleText :
    [Field.strictCallouts, .permalinkText].Nodup ∧
      Spaced (objectTokens true (sampleSettings.members [.strictCallouts, .permalinkText]))
        sampleText.toList ∧
      ∃ c, parse sampleText = .ok c ∧ ∀ field, c.get field =
        if field ∈ [Field.strictCallouts, .permalinkText] then sampleSettings.get field
        else ({} : Config).get field := by
  have hnodup : [Field.strictCallouts, .permalinkText].Nodup := by decide
  exact ⟨hnodup, spaced_sampleText,
    (parse_spaced sampleSettings).1 _ true sampleText hnodup spaced_sampleText⟩

end DocTree.Docs.Config
