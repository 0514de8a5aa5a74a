import DocTree.Proofs.Docs.Config
import DocTree.Proofs.Json.Relaxed.Literal
import DocTree.Proofs.Text.ByteOrder

/-!
# The order of members in a configuration

An object says a configuration by what stands last under each key, and by nothing else: neither the
order of the members nor an overridden value has a part in it, not even in the error.  Of several
members that are no settings (`Offence`) the one with the least key is reported
(`Config.parse_object`).
-/

namespace DocTree.Docs.Config

open Json.Relaxed (Literal spaced_write)
open Text (utf8)

/-! ### Members that are no settings -/

/-- Why a member is no setting: its key is that of no field, or its value has another type than the
field. -/
inductive Offence : String → Json → ConfigMismatch → Prop
  | unknown {key : String} {value : Json} (h : ∀ field, Field.key field ≠ key) :
    Offence key value (.unknownField key)
  | noString {field : Field} {value : Json} (hfield : field ≠ .strictCallouts)
    (h : ∀ s, value ≠ .string s) : Offence field.key value (.wrongType value.head .string)
  | noBool {value : Json} (h : ∀ b, value ≠ .bool b) :
    Offence (Field.key .strictCallouts) value (.wrongType value.head .boolean)

theorem stringOfJson_eq_error_iff {j : Json} {reason : ConfigMismatch} :
    stringOfJson j = .error reason ↔ (∀ s, j ≠ .string s) ∧ reason = .wrongType j.head .string := by
  cases j <;> simp [stringOfJson, eq_comm]

theorem boolOfJson_eq_error_iff {j : Json} {reason : ConfigMismatch} :
    boolOfJson j = .error reason ↔ (∀ b, j ≠ .bool b) ∧ reason = .wrongType j.head .boolean := by
  cases j <;> simp [boolOfJson, eq_comm]

/-- What is reported of a string field, and of the other one. -/
theorem offence_key_iff {field : Field} {value : Json} {reason : ConfigMismatch} :
    Offence field.key value reason ↔
      if field = .strictCallouts then boolOfJson value = .error reason
      else stringOfJson value = .error reason := by
  constructor
  · intro h
    -- the key tells the field, so what is wrong with the one is wrong with the other
    generalize hkey : field.key = key at h
    cases h with
    | unknown h => exact absurd hkey (h field)
    | noString hother h =>
      obtain rfl := Field.key_injective hkey
      rw [if_neg hother]
      exact stringOfJson_eq_error_iff.2 ⟨h, rfl⟩
    | noBool h =>
      obtain rfl := Field.key_injective hkey
      rw [if_pos rfl]
      exact boolOfJson_eq_error_iff.2 ⟨h, rfl⟩
  · intro h
    split at h
    next hfield =>
      obtain ⟨hvalue, rfl⟩ := boolOfJson_eq_error_iff.1 h
      exact hfield ▸ .noBool hvalue
    next hfield =>
      obtain ⟨hvalue, rfl⟩ := stringOfJson_eq_error_iff.1 h
      exact .noString hfield hvalue

theorem bind_pure_eq_error_iff {α β : Type} {x : Except ConfigMismatch α} {f : α → β}
    {reason : ConfigMismatch} :
    (x >>= fun a => pure (f a)) = .error reason ↔ x = .error reason := by
  cases x with
  | error => simp [bind, Except.bind]
  | ok => simp [bind, Except.bind, pure, Except.pure]

theorem set_eq_error_iff {c : Config} {field : Field} {value : Json} {reason : ConfigMismatch} :
    c.set field value = .error reason ↔ Offence field.key value reason := by
  rw [offence_key_iff]
  cases field <;> exact bind_pure_eq_error_iff

theorem setMember_eq_error_iff {c : Config} {m : String × Json} {reason : ConfigMismatch} :
    c.setMember m = .error reason ↔ Offence m.1 m.2 reason := by
  rw [setMember]
  cases hfield : Field.ofKey? m.1 with
  | some field => rw [← Field.key_of_ofKey? hfield, set_eq_error_iff]
  | none =>
    have hunknown : ∀ field, Field.key field ≠ m.1 := fun field hkey => by
      rw [Field.ofKey?_eq_some_iff.2 hkey] at hfield
      cases hfield
    constructor
    · rintro ⟨⟩
      exact .unknown hunknown
    · generalize m.1 = key at hunknown
      rintro (_ | _ | _)
      · rfl
      · exact absurd rfl (hunknown _)
      · exact absurd rfl (hunknown _)

/-! ### The first of them -/

/-- In the order of keys the first member that is no setting is reported. -/
theorem foldlM_setMember_eq_error_iff {members : List (String × Json)}
    (h : Members.Increasing members) {c : Config} {reason : ConfigMismatch} :
    members.foldlM setMember c = .error reason ↔
      ∃ m ∈ members, Offence m.1 m.2 reason ∧
        ∀ other ∈ members, ∀ found, Offence other.1 other.2 found → ¬ other.1 < m.1 := by
  induction members generalizing c with
  | nil => exact ⟨nofun, fun ⟨m, hm, _⟩ => absurd hm List.not_mem_nil⟩
  | cons head rest ih =>
    obtain ⟨hlt, hrest⟩ := List.pairwise_cons.1 h
    rw [List.foldlM_cons]
    cases hhead : c.setMember head with
    | error found =>
      -- the first member is reported, and no other has a lesser key
      have hoffence := setMember_eq_error_iff.1 hhead
      constructor
      · rintro ⟨⟩
        refine ⟨head, List.mem_cons_self, hoffence, List.forall_mem_cons.2 ⟨fun _ _ => ?_, ?_⟩⟩
        · exact String.lt_irrefl _
        · exact fun other hother _ _ hless =>
            String.lt_irrefl _ (String.lt_trans hless (hlt other hother))
      · rintro ⟨m, hm, hreason, hleast⟩
        rcases List.mem_cons.1 hm with rfl | hm
        · rw [← setMember_eq_error_iff (c := c), hhead] at hreason
          exact hreason
        · exact absurd (hlt m hm) (hleast head List.mem_cons_self found hoffence)
    | ok d =>
      -- the first member is a setting, so it is a later one
      have hsettles : ∀ found, ¬ Offence head.1 head.2 found := fun found hfound => by
        rw [← setMember_eq_error_iff (c := c), hhead] at hfound
        cases hfound
      refine (ih hrest).trans ⟨?_, ?_⟩
      · rintro ⟨m, hm, hreason, hleast⟩
        exact ⟨m, List.mem_cons_of_mem _ hm, hreason,
          List.forall_mem_cons.2 ⟨fun found hfound => absurd hfound (hsettles found), hleast⟩⟩
      · rintro ⟨m, hm, hreason, hleast⟩
        rcases List.mem_cons.1 hm with rfl | hm
        · exact absurd hreason (hsettles reason)
        · exact ⟨m, hm, hreason, (List.forall_mem_cons.1 hleast).2⟩

theorem ofJson_object_eq_error_iff {members : List (String × Json)} {reason : ConfigMismatch} :
    ofJson (.object members) = .error reason ↔ ∃ key value,
      Members.last? key members = some value ∧ Offence key value reason ∧
        ∀ other last found, Members.last? other members = some last → Offence other last found →
          ¬ other < key := by
  have hsorted := Members.increasing_sorted members
  have hmem : ∀ m : String × Json,
      m ∈ Members.sorted members ↔ Members.last? m.1 members = some m.2 := fun m => by
    rw [← Members.get?_eq_some_iff_mem (Members.nodup_of_increasing hsorted), Members.get?_sorted]
  rw [ofJson, foldlM_setMember_eq_error_iff hsorted]
  simp only [hmem, Prod.exists, Prod.forall]
  constructor
  · rintro ⟨key, value, hlast, hreason, hleast⟩
    exact ⟨key, value, hlast, hreason, fun other last found hother => hleast other last hother found⟩
  · rintro ⟨key, value, hlast, hreason, hleast⟩
    exact ⟨key, value, hlast, hreason, fun other last hother found => hleast other last found hother⟩

theorem last?_membersToJson_iff {key : String} {members : List (String × Literal)} {value : Json} :
    Members.last? key (Literal.membersToJson members) = some value ↔
      ∃ l, Members.last? key members = some l ∧ l.toJson = value := by
  rw [Literal.membersToJson_eq_map, Members.last?_map, Option.map_eq_some_iff]

/-! ### Whole texts -/

theorem parse_of_isValueOf {text : String} {members : List (String × Literal)}
    (h : (Literal.object members).IsValueOf text) :
    parse text = (ofJson (.object (Literal.membersToJson members))).mapError .invalid := by
  rw [parse, h.read]
  rfl

/-- Objects with the same last values say the same. -/
theorem parse_congr {text other : String} {members others : List (String × Literal)}
    (htext : (Literal.object members).IsValueOf text)
    (hother : (Literal.object others).IsValueOf other)
    (h : ∀ key, Members.last? key others = Members.last? key members) : parse other = parse text := by
  have hlast : ∀ key, Members.last? key (Literal.membersToJson others) =
      Members.last? key (Literal.membersToJson members) := fun key => by
    rw [Literal.membersToJson_eq_map, Literal.membersToJson_eq_map, Members.last?_map,
      Members.last?_map, h]
  rw [parse_of_isValueOf htext, parse_of_isValueOf hother, ofJson, ofJson, Members.sorted_congr hlast]

/-- The error is about the last value for the least key under which there is no setting. -/
theorem parse_eq_error_iff {text : String} {members : List (String × Literal)}
    (htext : (Literal.object members).IsValueOf text) {e : ConfigError} :
    parse text = .error e ↔ ∃ key l reason, e = .invalid reason ∧
      Members.last? key members = some l ∧ Offence key l.toJson reason ∧
        ∀ other last found, Members.last? other members = some last →
          Offence other last.toJson found → utf8 key ≤ utf8 other := by
  rw [parse_of_isValueOf htext, mapError_eq_error_iff]
  simp only [ofJson_object_eq_error_iff, last?_membersToJson_iff, Text.utf8_le_iff, ← String.not_lt]
  constructor
  · rintro ⟨reason, ⟨key, _, ⟨l, hlast, rfl⟩, hreason, hleast⟩, rfl⟩
    exact ⟨key, l, reason, rfl, hlast, hreason,
      fun other last found hother => hleast other _ found ⟨last, hother, rfl⟩⟩
  · rintro ⟨key, l, reason, rfl, hlast, hreason, hleast⟩
    refine ⟨reason, ⟨key, _, ⟨l, hlast, rfl⟩, hreason, ?_⟩, rfl⟩
    rintro other _ found ⟨last, hother, rfl⟩
    exact hleast other last found hother

/-- **What an object says does not depend on the order of its members.**  After a permutation of members
with distinct keys it says the same, be it a configuration or an error; with repeated keys it says what
the object of the last member for each key says, and so does every object with the same last values.

If it is no configuration, the error is about one of the last values: of those that are no setting the
one whose key has the least bytes. -/
theorem parse_object {text : String} {members : List (String × Literal)}
    (htext : (Literal.object members).IsValueOf text) :
    (∀ (other : String) (others : List (String × Literal)),
      (Literal.object others).IsValueOf other →
        (others.Perm members → (members.map (·.1)).Nodup → parse other = parse text) ∧
        (others = Members.lastOnly members →
          (others.map (·.1)).Nodup ∧ parse other = parse text) ∧
        ((∀ key, Members.last? key others = Members.last? key members) →
          parse other = parse text)) ∧
    ∀ e, parse text = .error e ↔ ∃ key l reason, e = .invalid reason ∧
      Members.last? key members = some l ∧ Offence key l.toJson reason ∧
        ∀ other last found, Members.last? other members = some last →
          Offence other last.toJson found → utf8 key ≤ utf8 other := by
  refine ⟨fun other others hother => ⟨fun hperm hkeys => ?_, ?_, parse_congr htext hother⟩,
    fun _ => parse_eq_error_iff htext⟩
  · exact parse_congr htext hother (Members.last?_of_perm hperm hkeys)
  · rintro rfl
    exact ⟨Members.nodup_keys_lastOnly members,
      parse_congr htext hother fun key => Members.last?_lastOnly key members⟩

/-- Every key once, of which one is that of no field, and a truth value for a string. -/
def sampleOnce : List (String × Literal) :=
  [("zoo", .bool true), ("headingClass", .bool false), ("strictCallouts", .bool true)]

/-- The same members behind one of a wrong type that is overridden. -/
def sampleRepeated : List (String × Literal) := ("strictCallouts", .string "yes") :: sampleOnce

/-- The compact text of an object. -/
def sampleObject (members : List (String × Literal)) : String :=
  (Json.object (Literal.membersToJson members)).render

/-- The repeated member has no part in what is said, and neither has the order.  Of the two faults
the one of the lesser key is reported. -/
theorem parse_object_sampleRepeated :
    (Literal.object sampleRepeated).IsValueOf (sampleObject sampleRepeated) ∧
    (Literal.object sampleOnce).IsValueOf (sampleObject sampleOnce) ∧
    (Literal.object sampleOnce.reverse).IsValueOf (sampleObject sampleOnce.reverse) ∧
    parse (sampleObject sampleOnce) = parse (sampleObject sampleRepeated) ∧
    parse (sampleObject sampleOnce.reverse) = parse (sampleObject sampleOnce) ∧
    parse (sampleObject sampleRepeated) =
      .error (.invalid (.wrongType (.bool false) .string)) := by
  have hobject : ∀ members : List (String × Literal), (∀ m ∈ members, m.2.IsSetting) →
      (Literal.object members).IsValueOf (sampleObject members) := fun members hmembers =>
    Literal.isValueOf_of_spaced hmembers (by
      rw [sampleObject, Json.render, String.toList_ofList]
      exact spaced_write _)
  have hrepeated := hobject sampleRepeated (by decide)
  have honce := hobject sampleOnce (by decide)
  have hreverse := hobject sampleOnce.reverse (by decide)
  refine ⟨hrepeated, honce, hreverse, ?_, ?_, ?_⟩
  · exact (((parse_object hrepeated).1 _ _ honce).2.1 rfl).2
  · exact ((parse_object honce).1 _ _ hreverse).1 (List.reverse_perm _) (by decide)
  · have hleast : ∀ key ∈ sampleRepeated.map (·.1), "headingClass" ≤ key := by decide
    refine ((parse_object hrepeated).2 _).2 ⟨"headingClass", .bool false, _, rfl, rfl,
      @Offence.noString .headingClass _ (by decide) (by rintro s ⟨⟩),
      fun other last found hother _ => ?_⟩
    have hmem := Members.isSome_last?_iff.1 (Option.isSome_of_eq_some hother)
    exact Text.utf8_le_iff.2 (hleast other hmem)

end DocTree.Docs.Config
