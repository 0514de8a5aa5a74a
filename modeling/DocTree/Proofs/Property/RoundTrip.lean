import DocTree.Proofs.Binary64.ReadBack
import DocTree.Proofs.Node.Decode

/-!
# Reading back properties

A property map in which every number is finite is what its written form says, names in the same
order (`Properties.ofJson?_toJson`).  One thing is lost: an integer is written without a point, so
minus zero is written as `0` and comes back without its sign (`Properties.unsignedZeros`).  As
numbers the two zeros are equal, so the maps are equal nevertheless (`Properties.same_unsignedZeros`).
-/

namespace DocTree

/-! ### Zeros without a sign -/

/-- The number, but zero without a sign. -/
def Binary64.Finite.unsignedZero (x : Finite) : Finite := if x.steps = 0 then .zero false else x

/-- The number, but zero without a sign. -/
def Binary64.unsignedZero : Binary64 → Binary64
  | finite x => finite x.unsignedZero
  | x => x

/-- The item, but zero without a sign. -/
def PropertyItem.unsignedZeros : PropertyItem → PropertyItem
  | number x => number x.unsignedZero
  | item => item

/-- The value, but every zero without a sign. -/
def PropertyValue.unsignedZeros : PropertyValue → PropertyValue
  | number x => number x.unsignedZero
  | list items => list (items.map PropertyItem.unsignedZeros)
  | value => value

/-- The map, but every zero without a sign. -/
def Properties.unsignedZeros (p : Properties) : Properties where
  entries := p.entries.map fun (name, value) => (name, value.unsignedZeros)
  nodup := by
    rw [List.map_map]
    exact p.nodup

/-! ### Finite numbers -/

/-- Whether the number is finite. -/
def Binary64.IsFinite (x : Binary64) : Prop := ∃ y, x = finite y

/-- Every number of the item is finite. -/
def PropertyItem.IsFinite (item : PropertyItem) : Prop := ∀ x, item = number x → x.IsFinite

/-- Every number of the value is finite. -/
def PropertyValue.IsFinite : PropertyValue → Prop
  | number x => x.IsFinite
  | list items => ∀ item ∈ items, item.IsFinite
  | _ => True

/-- Every number of the map is finite. -/
def Properties.IsFinite (p : Properties) : Prop := ∀ entry ∈ p.entries, entry.2.IsFinite

/-! ### Numbers -/

namespace Binary64.Finite

variable {x : Finite}

theorem whole_mul_stepsPerUnit (h : x.isInteger = true) : x.whole * stepsPerUnit = x.steps :=
  Nat.div_mul_cancel (Nat.dvd_of_mod_eq_zero (beq_iff_eq.1 h))

theorem whole_eq_zero_iff (h : x.isInteger = true) : x.whole = 0 ↔ x.steps = 0 := by
  rw [← whole_mul_stepsPerUnit h, Nat.mul_eq_zero, or_iff_left stepsPerUnit_pos.ne']

theorem value_unsignedZero (x : Finite) : x.unsignedZero.value = x.value := by
  unfold unsignedZero
  split
  next h => simp [value, zero, h]
  next => rfl

/-- An integer is the double it was written from, but for the sign of zero. -/
theorem ofInt_whole (h : x.isInteger = true) :
    Binary64.ofInt (if x.negative then -(x.whole : Int) else x.whole) = finite x.unsignedZero := by
  have habs : (if x.negative then -(x.whole : Int) else x.whole).natAbs = x.whole := by
    split <;> omega
  have hratio (negative : Bool) : ofDecimal? negative x.whole 0 =
      ofRatio? negative (x.steps * 1) 1 := by
    rw [ofDecimal?_eq_ofRatio?, ← whole_mul_stepsPerUnit h, Nat.mul_one]
    exact congrArg (ofRatio? negative · 1) (congrArg (· * stepsPerUnit) (Nat.mul_one _))
  -- nothing is rounded, since the steps were those of a double before
  have hround : roundSteps (x.steps * 1) 1 = x.steps := roundSteps_mul x.representable Nat.one_pos
  have hread : ofDecimal? (decide ((if x.negative then -(x.whole : Int) else x.whole) < 0))
      x.whole 0 = some x.unsignedZero := by
    rw [hratio, ofRatio?_eq_some_iff, hround]
    unfold unsignedZero
    by_cases hzero : x.steps = 0
    · have hwhole := (whole_eq_zero_iff h).2 hzero
      simp [hzero, hwhole, zero]
    · have hwhole := mt (whole_eq_zero_iff h).1 hzero
      rw [if_neg hzero]
      refine ⟨?_, rfl⟩
      cases hneg : x.negative with
      | false => simp
      | true => simp; omega
  unfold Binary64.ofInt
  rw [habs, hread]

theorem unsignedZero_of_not_written_whole
    (h : ¬ (x.isInteger = true ∧ x.whole ≤ PropertyValue.integerLimit)) : x.unsignedZero = x := by
  refine if_neg fun hzero => h ⟨?_, ?_⟩
  · simp [isInteger, hzero]
  · simp [whole, hzero]

end Binary64.Finite

namespace PropertyValue

theorem numberOfJson?_numberToJson (x : Binary64.Finite) :
    numberOfJson? (numberToJson (.finite x)) = some (.finite x.unsignedZero) := by
  rw [numberToJson]
  split
  next h => exact congrArg some (Binary64.Finite.ofInt_whole h.1)
  next h =>
    rw [Binary64.Finite.unsignedZero_of_not_written_whole h]
    rfl

/-- A zero of either sign is written as an integer. -/
theorem numberToJson_of_steps_eq_zero {x : Binary64.Finite} (h : x.steps = 0) :
    numberToJson (.finite x) = .integer ⟨0, by decide⟩ := by
  have hinteger : x.isInteger = true := by simp [Binary64.Finite.isInteger, h]
  have hwhole : x.whole = 0 := (Binary64.Finite.whole_eq_zero_iff hinteger).2 h
  rw [numberToJson, dif_pos ⟨hinteger, hwhole ▸ Nat.zero_le _⟩]
  simp [hwhole]

@[simp] theorem numberToJson_zero (negative : Bool) :
    numberToJson (.finite (.zero negative)) = .integer ⟨0, by decide⟩ :=
  numberToJson_of_steps_eq_zero rfl

/-- A finite number is written as a number. -/
theorem numberToJson_eq (x : Binary64.Finite) :
    (∃ n, numberToJson (.finite x) = .integer n) ∨ numberToJson (.finite x) = .float x := by
  rw [numberToJson]
  split
  · exact .inl ⟨_, rfl⟩
  · exact .inr rfl

theorem nesting_numberToJson (x : Binary64) : (numberToJson x).nesting = 0 := by
  cases x with
  | finite y =>
    rcases numberToJson_eq y with ⟨n, hn⟩ | hf
    · rw [hn]
      rfl
    · rw [hf]
      rfl
  | _ => rfl

/-! ### Items and values -/

theorem itemOfJson?_itemToJson {item : PropertyItem} (h : item.IsFinite) :
    itemOfJson? (itemToJson item) = some item.unsignedZeros := by
  cases item with
  | string s => rfl
  | number x =>
    obtain ⟨y, rfl⟩ := h x rfl
    have hread := numberOfJson?_numberToJson y
    rw [itemToJson]
    rcases numberToJson_eq y with ⟨n, hn⟩ | hf
    · rw [hn] at hread ⊢
      rw [itemOfJson?, hread]
      · rfl
      · simp
    · rw [hf] at hread ⊢
      rw [itemOfJson?, hread]
      · rfl
      · simp

theorem mapM_itemToJson {items : List PropertyItem} (h : ∀ item ∈ items, item.IsFinite) :
    (items.map itemToJson).mapM itemOfJson? = some (items.map PropertyItem.unsignedZeros) := by
  induction items with
  | nil => rfl
  | cons item rest ih =>
    obtain ⟨hitem, hrest⟩ := List.forall_mem_cons.1 h
    rw [List.map_cons, List.mapM_cons, itemOfJson?_itemToJson hitem, ih hrest]
    rfl

/-- A property value is what its written form says, but for the signs of zeros. -/
theorem ofJson?_toJson {value : PropertyValue} (h : value.IsFinite) :
    ofJson? value.toJson = some value.unsignedZeros := by
  cases value with
  | boolean | string | null => rfl
  | list items =>
    rw [toJson, ofJson?, mapM_itemToJson h]
    rfl
  | number x =>
    obtain ⟨y, rfl⟩ := h
    -- the number is written as an integer or as a double, and is read back from either
    have hread := numberOfJson?_numberToJson y
    rw [toJson]
    rcases numberToJson_eq y with ⟨n, hn⟩ | hf
    · rw [hn] at hread ⊢
      rw [ofJson?, hread]
      · rfl
      all_goals simp
    · rw [hf] at hread ⊢
      rw [ofJson?, hread]
      · rfl
      all_goals simp

end PropertyValue

/-! ### Maps -/

namespace Properties

theorem put_of_not_mem {name : String} {value : PropertyValue}
    {entries : List (String × PropertyValue)} (h : name ∉ entries.map (·.1)) :
    put name value entries = entries ++ [(name, value)] := by
  induction entries with
  | nil => rfl
  | cons head rest ih =>
    obtain ⟨n, v⟩ := head
    rw [List.map_cons, List.mem_cons, not_or] at h
    rw [put, if_neg (Ne.symm h.1), ih h.2]
    rfl

/-- Entries with new names come behind those that are there, in their order. -/
theorem addAll_entries : ∀ (later : List (String × PropertyValue)) (before : Properties),
    (∀ entry ∈ later, entry.2.IsFinite) → ((before.entries ++ later).map (·.1)).Nodup →
    ∃ p, Json.addAll add? before (later.map fun (name, value) => (name, value.toJson)) = some p ∧
      p.entries = before.entries ++ later.map fun (name, value) => (name, value.unsignedZeros)
  | [], before, _, _ => ⟨before, rfl, (List.append_nil _).symm⟩
  | (name, value) :: later, before, hfinite, hnodup => by
    obtain ⟨hvalue, hlater⟩ := List.forall_mem_cons.1 hfinite
    -- a new name is put behind the others, so the names of both parts stay as they are together
    have hnew : name ∉ before.entries.map (·.1) := by
      rw [List.map_append, List.nodup_append] at hnodup
      exact fun hmem => hnodup.2.2 name hmem name List.mem_cons_self rfl
    have hentries : (before.insert name value.unsignedZeros).entries =
        before.entries ++ [(name, value.unsignedZeros)] := put_of_not_mem hnew
    have hnames : ((before.insert name value.unsignedZeros).entries ++ later).map (·.1) =
        (before.entries ++ (name, value) :: later).map (·.1) := by
      simp [hentries]
    obtain ⟨p, hp, heq⟩ := addAll_entries later (before.insert name value.unsignedZeros) hlater
      (hnames ▸ hnodup)
    refine ⟨p, ?_, ?_⟩
    · rw [List.map_cons, Json.addAll_cons_eq_some_iff]
      refine ⟨before.insert name value.unsignedZeros, ?_, hp⟩
      rw [add?, PropertyValue.ofJson?_toJson hvalue]
      rfl
    · rw [heq, hentries, List.append_assoc]
      rfl

/-- A property map is what its written form says, but for the signs of zeros. -/
theorem ofJson?_toJson {p : Properties} (h : p.IsFinite) :
    p.toJson.optionalProperties? = some (some p.unsignedZeros) := by
  obtain ⟨q, hq, heq⟩ := addAll_entries p.entries .empty h p.nodup
  have hqp : q = p.unsignedZeros := by
    obtain ⟨entries, nodup⟩ := q
    cases heq
    rfl
  rw [toJson, Json.optionalProperties?, hq, hqp]
  rfl

end Properties

/-! ### Equality up to the signs of zeros -/

theorem PropertyItem.same_unsignedZeros {item : PropertyItem} (h : item.IsFinite) :
    PropertyValue.sameItem item.unsignedZeros item = true := by
  cases item with
  | string s => exact beq_self_eq_true s
  | number x =>
    obtain ⟨y, rfl⟩ := h x rfl
    exact Binary64.Finite.sameNumber_iff.2 y.value_unsignedZero

namespace PropertyValue

theorem sameItems_unsignedZeros {items : List PropertyItem} (h : ∀ item ∈ items, item.IsFinite) :
    sameItems (items.map PropertyItem.unsignedZeros) items = true := by
  induction items with
  | nil => rfl
  | cons item rest ih =>
    obtain ⟨hitem, hrest⟩ := List.forall_mem_cons.1 h
    rw [List.map_cons, sameItems, item.same_unsignedZeros hitem, ih hrest]
    rfl

theorem same_unsignedZeros {value : PropertyValue} (h : value.IsFinite) :
    value.unsignedZeros.same value = true := by
  cases value with
  | boolean b => exact beq_self_eq_true b
  | string s => exact beq_self_eq_true s
  | null => rfl
  | list items => exact sameItems_unsignedZeros h
  | number x =>
    obtain ⟨y, rfl⟩ := h
    exact Binary64.Finite.sameNumber_iff.2 y.value_unsignedZero

end PropertyValue

namespace Properties

theorem lookup_of_mem {name : String} {value : PropertyValue}
    {entries : List (String × PropertyValue)} (hnodup : (entries.map (·.1)).Nodup)
    (hmem : (name, value) ∈ entries) : lookup name entries = some value := by
  induction entries with
  | nil => cases hmem
  | cons head rest ih =>
    obtain ⟨n, v⟩ := head
    obtain ⟨hn, hrest⟩ := List.nodup_cons.1 hnodup
    rw [lookup]
    rcases List.mem_cons.1 hmem with heq | hmem
    · cases heq
      rw [if_pos rfl]
    · have hne : n ≠ name := by
        rintro rfl
        exact hn (List.mem_map_of_mem (f := (·.1)) hmem)
      rw [if_neg hne, ih hrest hmem]

theorem same_unsignedZeros {p : Properties} (h : p.IsFinite) :
    p.unsignedZeros.same p = true := by
  have hsize : p.unsignedZeros.size = p.size := by simp [size, unsignedZeros]
  rw [same, hsize, beq_self_eq_true, Bool.true_and, List.all_eq_true]
  intro entry hentry
  obtain ⟨⟨name, value⟩, hmem, rfl⟩ := List.mem_map.1 hentry
  show (p.get? name).any value.unsignedZeros.same = true
  rw [get?, lookup_of_mem p.nodup hmem]
  exact PropertyValue.same_unsignedZeros (h _ hmem)

end Properties

end DocTree
