import DocTree.Proofs.Json.Content
import DocTree.Proofs.Node.Nesting

/-!
# The limit on nesting

A reader that opens no more than a number of containers at a time gives what one without such a
limit gives (`Json.Says`), unless the value nests deeper: the limit decides about whole values, and
nothing else (`readAll_value_iff`).
-/

namespace DocTree.Json

open Reading

variable {Reason : Type} {round : Numeral → Option Binary64.Finite}

/-- The text says the value, however deep it nests, given which double a numeral denotes. -/
def SaysBy (Reason : Type) (round : Numeral → Option Binary64.Finite) (text : String) (j : Json) :
    Prop :=
  ∃ levels, readAll (@valueBy Reason round levels) text = .ok j

/-- The text says the value, however deep it nests, with numbers as they are read. -/
abbrev Says (Reason : Type) (text : String) (j : Json) : Prop :=
  SaysBy Reason Numeral.toFinite? text j

/-- The value, if it nests no deeper than the given number of levels. -/
def within? (levels : Nat) (j : Json) : Option Json := if j.nesting ≤ levels then some j else none

theorem within?_eq_some_iff {levels : Nat} {i j : Json} :
    within? levels i = some j ↔ i = j ∧ i.nesting ≤ levels := by
  unfold within?
  by_cases h : i.nesting ≤ levels
  · simp [h]
  · simp [h]

/-- To give the values within the limit is to give what is read, if it keeps to the limit. -/
theorem decodes_within?_iff {value reading : Reading Reason Json} {levels : Nat} :
    Decodes value reading (within? levels) ↔ ∀ text j rest,
      reading text = .ok (j, rest) ↔ value text = .ok (j, rest) ∧ j.nesting ≤ levels := by
  refine forall_congr' fun text => forall_congr' fun j => forall_congr' fun rest =>
    iff_congr Iff.rfl ?_
  constructor
  · rintro ⟨i, hi, hwithin⟩
    obtain ⟨rfl, hnesting⟩ := within?_eq_some_iff.1 hwithin
    exact ⟨hi, hnesting⟩
  · rintro ⟨hj, hnesting⟩
    exact ⟨j, hj, within?_eq_some_iff.2 ⟨rfl, hnesting⟩⟩

/-- Only scalars do not nest. -/
theorem nesting_eq_zero_iff {j : Json} : j.nesting = 0 ↔ j.isScalar = true := by
  cases j <;> simp [nesting, isScalar]

theorem mapM_within? (levels : Nat) (js items : List Json) :
    js.mapM (within? levels) = some items ↔ js = items ∧ nestingItems js ≤ levels := by
  induction js generalizing items with
  | nil => simp [nestingItems]
  | cons j rest ih =>
    rw [mapM_cons_eq_some_iff, nestingItems_le_iff]
    constructor
    · rintro ⟨i, others, hi, hothers, rfl⟩
      obtain ⟨rfl, hj⟩ := within?_eq_some_iff.1 hi
      obtain ⟨rfl, hrest⟩ := (ih others).1 hothers
      exact ⟨rfl, List.forall_mem_cons.2 ⟨hj, nestingItems_le_iff.1 hrest⟩⟩
    · rintro ⟨rfl, h⟩
      obtain ⟨hj, hrest⟩ := List.forall_mem_cons.1 h
      exact ⟨j, rest, within?_eq_some_iff.2 ⟨rfl, hj⟩,
        (ih rest).2 ⟨rfl, nestingItems_le_iff.2 hrest⟩, rfl⟩

/-- Adds a member, unless its value nests too deep. -/
def addWithin (levels : Nat) (read : List (String × Json)) (key : String) (j : Json) :
    Option (List (String × Json)) :=
  (within? levels j).map fun j => read ++ [(key, j)]

theorem addAll_addWithin (levels : Nat) (before ms members : List (String × Json)) :
    addAll (addWithin levels) before ms = some members ↔
      before ++ ms = members ∧ nestingMembers ms ≤ levels := by
  induction ms generalizing before with
  | nil =>
    rw [List.append_nil]
    exact ⟨fun h => ⟨Option.some.inj h, Nat.zero_le _⟩, fun h => congrArg some h.1⟩
  | cons m rest ih =>
    obtain ⟨key, j⟩ := m
    rw [addAll_cons_eq_some_iff, nestingMembers_le_iff, List.forall_mem_cons,
      ← nestingMembers_le_iff]
    constructor
    · rintro ⟨next, hnext, hadds⟩
      obtain ⟨i, hi, rfl⟩ := Option.map_eq_some_iff.1 hnext
      obtain ⟨rfl, hj⟩ := within?_eq_some_iff.1 hi
      obtain ⟨rfl, hrest⟩ := (ih _).1 hadds
      exact ⟨by rw [List.append_assoc, List.singleton_append], hj, hrest⟩
    · rintro ⟨rfl, hj, hrest⟩
      refine ⟨before ++ [(key, j)], ?_, (ih _).2 ⟨?_, hrest⟩⟩
      · rw [addWithin, within?_eq_some_iff.2 ⟨rfl, hj⟩, Option.map_some]
      · rw [List.append_assoc, List.singleton_append]

section Levels

variable {few many : Nat} {text rest : List Char}

/-- A reader that may open no container gives the scalars. -/
theorem value_zero_eq_ok_iff {j : Json} : @valueBy Reason round 0 text = .ok (j, rest) ↔
    @valueBy Reason round many text = .ok (j, rest) ∧ j.nesting ≤ 0 := by
  rw [Nat.le_zero, nesting_eq_zero_iff]
  constructor
  · intro h
    have hscalar : j.isScalar = true := by
      rw [valueBy, valueWith_eq_ok_iff] at h
      rcases h with ⟨hscalar, -⟩ | ⟨_, -, h⟩ | ⟨_, -, h⟩
      · exact hscalar
      · cases h
      · cases h
    exact ⟨(value_eq_ok_scalar_iff hscalar).2 ((value_eq_ok_scalar_iff hscalar).1 h), hscalar⟩
  · rintro ⟨h, hscalar⟩
    exact (value_eq_ok_scalar_iff hscalar).2 ((value_eq_ok_scalar_iff hscalar).1 h)

theorem value_succ_eq_ok_array_iff {js : List Json} :
    @valueBy Reason round (few + 1) text = .ok (.array js, rest) ↔
      ∃ mid, @tokenBy Reason round text = .ok (.array, mid) ∧
        items (@valueBy Reason round few) mid = .ok (js, rest) := by
  rw [value_eq_ok_array_iff]
  constructor
  · rintro ⟨below, mid, hlevels, h⟩
    cases hlevels
    exact ⟨mid, h⟩
  · rintro ⟨mid, h⟩
    exact ⟨few, mid, rfl, h⟩

theorem value_succ_eq_ok_object_iff {ms : List (String × Json)} :
    @valueBy Reason round (few + 1) text = .ok (.object ms, rest) ↔
      ∃ mid, @tokenBy Reason round text = .ok (.object, mid) ∧
        members (collect (@valueBy Reason round few)) [] mid = .ok (ms, rest) := by
  rw [value_eq_ok_object_iff]
  constructor
  · rintro ⟨below, mid, hlevels, h⟩
    cases hlevels
    exact ⟨mid, h⟩
  · rintro ⟨mid, h⟩
    exact ⟨few, mid, rfl, h⟩

/-- Items are read with a level less, if that only keeps the nesting of each down. -/
theorem items_value_eq_ok_iff (h : Decodes (@valueBy Reason round many) (valueBy round few) (within? few))
    {js : List Json} : items (@valueBy Reason round few) text = .ok (js, rest) ↔
      items (@valueBy Reason round many) text = .ok (js, rest) ∧ nestingItems js ≤ few := by
  rw [items_decodes h]
  simp only [mapM_within?]
  constructor
  · rintro ⟨js, hjs, rfl, hnesting⟩
    exact ⟨hjs, hnesting⟩
  · rintro ⟨hjs, hnesting⟩
    exact ⟨js, hjs, rfl, hnesting⟩

theorem members_value_eq_ok_iff
    (h : Decodes (@valueBy Reason round many) (valueBy round few) (within? few))
    {ms : List (String × Json)} :
    members (collect (@valueBy Reason round few)) [] text = .ok (ms, rest) ↔
      members (collect (@valueBy Reason round many)) [] text = .ok (ms, rest) ∧
        nestingMembers ms ≤ few := by
  have hcollect : MemberDecodes (@valueBy Reason round many) (collect (valueBy round few))
      (addWithin few) :=
    memberDecodes_of_decodes fun read key => h.map fun j => read ++ [(key, j)]
  rw [members_decodes hcollect]
  simp only [addAll_addWithin, List.nil_append]
  constructor
  · rintro ⟨ms, hms, rfl, hnesting⟩
    exact ⟨hms, hnesting⟩
  · rintro ⟨hms, hnesting⟩
    exact ⟨ms, hms, rfl, hnesting⟩

theorem value_succ_eq_ok_iff
    (h : Decodes (@valueBy Reason round many) (valueBy round few) (within? few)) {j : Json} :
    @valueBy Reason round (few + 1) text = .ok (j, rest) ↔
      @valueBy Reason round (many + 1) text = .ok (j, rest) ∧ j.nesting ≤ few + 1 := by
  cases j with
  | array js =>
    simp only [value_succ_eq_ok_array_iff, items_value_eq_ok_iff h, nesting, Nat.add_le_add_iff_right,
      ← and_assoc, exists_and_right]
  | object ms =>
    simp only [value_succ_eq_ok_object_iff, members_value_eq_ok_iff h, nesting,
      Nat.add_le_add_iff_right, ← and_assoc, exists_and_right]
  | null | bool | integer | float | string =>
    rw [value_eq_ok_scalar_iff rfl, value_eq_ok_scalar_iff rfl]
    exact (and_iff_left (Nat.zero_le _)).symm

end Levels

/-- A reader with a lower limit gives of the same values those that keep to it. -/
theorem value_decodes (few : Nat) : ∀ many : Nat, few ≤ many →
    Decodes (@valueBy Reason round many) (valueBy round few) (within? few) := by
  -- containers open one level less in both readers, so the induction is on the lower limit
  induction few with
  | zero => exact fun many _ => decodes_within?_iff.2 fun _ _ _ => value_zero_eq_ok_iff
  | succ few ih =>
    intro many hle
    obtain ⟨many, rfl⟩ := Nat.exists_eq_add_of_le' hle
    have hbelow := ih (many + few) (Nat.le_add_left few many)
    exact decodes_within?_iff.2 fun _ _ _ => value_succ_eq_ok_iff hbelow

/-- The same for whole texts. -/
theorem readAll_value_of_le {few many : Nat} (h : few ≤ many) {text : String} {j : Json} :
    readAll (@valueBy Reason round few) text = .ok j ↔
      readAll (@valueBy Reason round many) text = .ok j ∧ j.nesting ≤ few := by
  simp only [readAll_eq_ok_iff, decodes_within?_iff.1 (value_decodes few many h) _ _ _]
  constructor
  · rintro ⟨rest, ⟨hj, hnesting⟩, hrest⟩
    exact ⟨⟨rest, hj, hrest⟩, hnesting⟩
  · rintro ⟨⟨rest, hj, hrest⟩, hnesting⟩
    exact ⟨rest, ⟨hj, hnesting⟩, hrest⟩

/-- **The limit decides about whole values alone**: a value is read within it if the text says it and
it nests no deeper. -/
theorem readAll_value_iff {levels : Nat} {text : String} {j : Json} :
    readAll (@valueBy Reason round levels) text = .ok j ↔
      SaysBy Reason round text j ∧ j.nesting ≤ levels := by
  constructor
  · intro h
    exact ⟨⟨levels, h⟩, ((readAll_value_of_le (Nat.le_refl levels)).1 h).2⟩
  · rintro ⟨⟨other, hread⟩, hnesting⟩
    -- both limits are below their sum
    have hboth := (readAll_value_of_le (Nat.le_add_left other levels)).1 hread
    exact (readAll_value_of_le (Nat.le_add_right levels other)).2 ⟨hboth.1, hnesting⟩

/-- A text says one value at most. -/
theorem says_unique {text : String} {i j : Json} (hi : SaysBy Reason round text i)
    (hj : SaysBy Reason round text j) : i = j := by
  have hri := readAll_value_iff.2 ⟨hi, Nat.le_max_left i.nesting j.nesting⟩
  have hrj := readAll_value_iff.2 ⟨hj, Nat.le_max_right i.nesting j.nesting⟩
  exact Except.ok.inj (hri.symm.trans hrj)

end DocTree.Json
