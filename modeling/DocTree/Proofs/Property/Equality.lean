import DocTree.Proofs.Json.Equivalent
import DocTree.Proofs.Property.RoundTrip
import Mathlib.Data.List.Perm.Subperm

/-!
# Equal properties

What is read of a property does not tell equal values apart: equal values are both present or both
not, and have the same text (`PropertyValue.isPresent_of_same`, `PropertyValue.text_of_same`).  The
zeros of both signs are why this needs a proof.

Two maps are equal exactly if they have equal values under every name (`Properties.same_iff`), so
equality is kept when a property is set, also where that puts the name at different places.
-/

namespace DocTree

/-! ### Values -/

theorem Binary64.Finite.eq_of_value_eq {x y : Finite} (h : x.value = y.value) (hx : x.steps ≠ 0) :
    x = y := by
  obtain ⟨s, m, hm⟩ := x
  obtain ⟨t, n, hn⟩ := y
  have hpos : m ≠ 0 := hx
  have hparts : s = t ∧ m = n := by
    cases s <;> cases t <;> simp [value] at h ⊢ <;> omega
  obtain ⟨rfl, rfl⟩ := hparts
  rfl

theorem Binary64.Finite.steps_eq_zero_iff {x : Finite} : x.steps = 0 ↔ x.value = 0 := by
  unfold value
  split <;> omega

/-- Numbers that are equal are the same but for the sign of zero. -/
theorem Binary64.eq_or_isZero_of_sameNumber {x y : Binary64} (h : x.sameNumber y = true) :
    x = y ∨ x.isZero = true ∧ y.isZero = true := by
  cases x with
  | finite x =>
    cases y with
    | finite y =>
      have hvalue := Finite.sameNumber_iff.1 h
      by_cases hx : x.steps = 0
      · have hy : y.steps = 0 := by
          rw [Finite.steps_eq_zero_iff, ← hvalue, ← Finite.steps_eq_zero_iff, hx]
        exact .inr ⟨by simp [isZero, hx], by simp [isZero, hy]⟩
      · exact .inl (congrArg finite (Finite.eq_of_value_eq hvalue hx))
    | _ => cases h
  | infinite s =>
    cases y with
    | infinite t => exact .inl (congrArg infinite (beq_iff_eq.1 h))
    | _ => cases h
  | notANumber => cases h

namespace PropertyValue

theorem numberText_of_same {x y : Binary64} (h : x.sameNumber y = true) :
    numberText x = numberText y := by
  rcases Binary64.eq_or_isZero_of_sameNumber h with rfl | ⟨hx, hy⟩
  · rfl
  · simp only [numberText, hx, hy, if_true]

theorem itemText_of_same {a b : PropertyItem} (h : sameItem a b = true) : a.text = b.text := by
  cases a with
  | number x =>
    cases b with
    | number y => exact numberText_of_same h
    | string t => cases h
  | string s =>
    cases b with
    | number y => cases h
    | string t => exact beq_iff_eq.1 h

theorem map_itemText_of_same : ∀ {as bs : List PropertyItem}, sameItems as bs = true →
    as.map PropertyItem.text = bs.map PropertyItem.text
  | [], [], _ => rfl
  | a :: as, b :: bs, h => by
    rw [sameItems, Bool.and_eq_true] at h
    rw [List.map_cons, List.map_cons, itemText_of_same h.1, map_itemText_of_same h.2]
  | [], _ :: _, h => by cases h
  | _ :: _, [], h => by cases h

/-- Equal values are of one kind. -/
theorem cases_of_same {P : PropertyValue → PropertyValue → Prop} {v w : PropertyValue}
    (h : v.same w = true) (boolean : ∀ b, P (.boolean b) (.boolean b))
    (number : ∀ x y, x.sameNumber y = true → P (.number x) (.number y))
    (string : ∀ s, P (.string s) (.string s))
    (list : ∀ as bs, sameItems as bs = true → P (.list as) (.list bs)) (null : P .null .null) :
    P v w := by
  cases v with
  | boolean a =>
    cases w with
    | boolean b => exact beq_iff_eq.1 h ▸ boolean a
    | _ => cases h
  | number x =>
    cases w with
    | number y => exact number x y h
    | _ => cases h
  | string s =>
    cases w with
    | string t => exact beq_iff_eq.1 h ▸ string s
    | _ => cases h
  | list as =>
    cases w with
    | list bs => exact list as bs h
    | _ => cases h
  | null =>
    cases w with
    | null => exact null
    | _ => cases h

/-- Equal values have the same text. -/
theorem text_of_same {v w : PropertyValue} (h : v.same w = true) : v.text = w.text := by
  refine cases_of_same (P := fun v w => v.text = w.text) h (fun _ => rfl)
    (fun x y hxy => numberText_of_same hxy) (fun _ => rfl) (fun as bs hitems => ?_) rfl
  rw [text, text, map_itemText_of_same hitems]

/-- Equal values are both present or both not. -/
theorem isPresent_of_same {v w : PropertyValue} (h : v.same w = true) :
    v.isPresent = w.isPresent := by
  refine cases_of_same (P := fun v w => v.isPresent = w.isPresent) h (fun _ => rfl)
    (fun x y hxy => ?_) (fun _ => rfl) (fun _ _ _ => rfl) rfl
  rcases Binary64.eq_or_isZero_of_sameNumber hxy with rfl | ⟨hx, hy⟩
  · rfl
  · cases x <;> cases y <;> simp_all [isPresent, Binary64.isZero]

theorem same_string (s : String) : (string s).same (string s) = true := beq_self_eq_true s

/-- Equality of values that may be absent. -/
abbrev SameIfAny : Option PropertyValue → Option PropertyValue → Prop :=
  Option.Rel (fun v w => v.same w = true)

end PropertyValue

/-! ### Maps -/

namespace Properties

open PropertyValue

theorem mem_of_lookup {name : String} {value : PropertyValue}
    {entries : List (String × PropertyValue)} (h : lookup name entries = some value) :
    (name, value) ∈ entries := by
  induction entries with
  | nil => cases h
  | cons head rest ih =>
    obtain ⟨n, v⟩ := head
    rw [lookup] at h
    split at h
    next hn =>
      cases h
      exact hn ▸ List.mem_cons_self
    next => exact List.mem_cons_of_mem _ (ih h)

variable {p q : Properties}

theorem get?_eq_some_iff {name : String} {value : PropertyValue} :
    p.get? name = some value ↔ (name, value) ∈ p.entries :=
  ⟨mem_of_lookup, lookup_of_mem p.nodup⟩

theorem mem_names_iff {name : String} : name ∈ p.names ↔ (p.get? name).isSome := by
  simp [names, Option.isSome_iff_exists, get?_eq_some_iff]

theorem size_eq_length_names (p : Properties) : p.size = p.names.length :=
  (List.length_map _).symm

theorem same_iff_of_get? : p.same q = true ↔ p.size = q.size ∧ ∀ name value,
    p.get? name = some value → ∃ other, q.get? name = some other ∧ value.same other = true := by
  simp [same, List.all_eq_true, get?_eq_some_iff, Option.any_eq_true]

/-- Equal maps are those with equal values under every name. -/
theorem same_iff : p.same q = true ↔ ∀ name, SameIfAny (p.get? name) (q.get? name) := by
  rw [same_iff_of_get?]
  constructor
  · rintro ⟨hsize, hvalues⟩ name
    -- the names of `p` are names of `q`, and `q` has no more of them
    have hsubset : p.names ⊆ q.names := fun name hname => by
      obtain ⟨value, hvalue⟩ := Option.isSome_iff_exists.1 (mem_names_iff.1 hname)
      obtain ⟨other, hother, -⟩ := hvalues name value hvalue
      exact mem_names_iff.2 (Option.isSome_iff_exists.2 ⟨other, hother⟩)
    have hlength : q.names.length ≤ p.names.length := by
      rw [← size_eq_length_names, ← size_eq_length_names, hsize]
    have hperm : p.names.Perm q.names :=
      (List.subperm_of_subset p.nodup hsubset).perm_of_length_le hlength
    cases hp : p.get? name with
    | some value =>
      obtain ⟨other, hother, hsame⟩ := hvalues name value hp
      rw [hother]
      exact .some hsame
    | none =>
      have hnot : name ∉ q.names := fun hname => by
        have := mem_names_iff.1 (hperm.mem_iff.2 hname)
        rw [hp] at this
        cases this
      rw [mem_names_iff, Option.not_isSome_iff_eq_none] at hnot
      rw [hnot]
      exact .none
  · intro h
    refine ⟨?_, fun name value hvalue => ?_⟩
    · have hperm : p.names.Perm q.names := by
        refine (List.perm_ext_iff_of_nodup p.nodup q.nodup).2 fun name => ?_
        change name ∈ p.names ↔ name ∈ q.names
        rw [mem_names_iff, mem_names_iff, isSome_of_rel (h name)]
      rw [size_eq_length_names, size_eq_length_names, hperm.length_eq]
    · have hname := h name
      rw [hvalue] at hname
      cases hq : q.get? name with
      | some other =>
        rw [hq] at hname
        cases hname with
        | some hsame => exact ⟨other, rfl, hsame⟩
      | none =>
        rw [hq] at hname
        cases hname

/-- Setting a property keeps maps equal. -/
theorem same_insert (h : p.same q = true) (name : String) {v w : PropertyValue}
    (hvalue : v.same w = true) : (p.insert name v).same (q.insert name w) = true := by
  rw [same_iff] at h ⊢
  intro other
  rw [get?_insert, get?_insert]
  split
  · exact .some hvalue
  · exact h other

end Properties

end DocTree
