import DocTree.Proofs.Json.RepeatedKeys
import Mathlib.Data.List.Forall2

/-!
# Equal values

Two values say the same if they agree but for the order of members and the signs of zeros
(`Json.Equivalent`): arrays item by item, objects as maps in which the last of equal keys counts, and
numbers of one class, integers or doubles, by their value.  This is decided on the canonical forms,
where members stand in one order (`Json.equivalent_iff`); so canonical values are equal exactly if
they say the same (`Json.same_iff_equivalent`).
-/

namespace DocTree

/-! ### Values that may be absent -/

section Rel

variable {α β γ δ : Type} {r s : α → β → Prop}

theorem rel_map_iff {t : γ → δ → Prop} {f : α → γ} {g : β → δ} {x : Option α} {y : Option β} :
    Option.Rel t (x.map f) (y.map g) ↔ Option.Rel (fun a b => t (f a) (g b)) x y := by
  cases x <;> cases y <;> simp

theorem rel_congr {x : Option α} {y : Option β} (h : ∀ a ∈ x, ∀ b ∈ y, (r a b ↔ s a b)) :
    Option.Rel r x y ↔ Option.Rel s x y := by
  cases x with
  | none => cases y <;> simp
  | some a =>
    cases y with
    | none => simp
    | some b => simpa using h a rfl b rfl

theorem isSome_of_rel {x : Option α} {y : Option β} (h : Option.Rel r x y) :
    x.isSome = y.isSome := by
  cases h <;> rfl

theorem rel_eq_iff {f : α → γ} {x y : Option α} :
    Option.Rel (fun a b => f a = f b) x y ↔ x.map f = y.map f := by
  cases x <;> cases y <;> simp

end Rel

namespace Members

variable {α β : Type}

/-- The first key is the smallest one. -/
theorem le_of_isSome_get? {key : String} {m : String × α} {members : List (String × α)}
    (hm : Increasing (m :: members)) (h : (get? key (m :: members)).isSome) : m.1 ≤ key := by
  refine String.not_lt.1 fun hlt => ?_
  have hlater : ∀ other ∈ members, key < other.1 := fun other hother =>
    String.lt_trans hlt ((List.pairwise_cons.1 hm).1 other hother)
  rw [get?_of_lt (List.forall_mem_cons.2 ⟨hlt, hlater⟩)] at h
  cases h

/-- Members under the same keys, in the order of these, begin with the same key. -/
theorem head_key_eq {m : String × α} {o : String × β} {members : List (String × α)}
    {others : List (String × β)} (hm : Increasing (m :: members)) (ho : Increasing (o :: others))
    (h : ∀ key, (get? key (m :: members)).isSome = (get? key (o :: others)).isSome) : m.1 = o.1 := by
  have hmo : (get? m.1 (o :: others)).isSome := by rw [← h m.1, get?_cons_self, Option.isSome_some]
  have hom : (get? o.1 (m :: members)).isSome := by rw [h o.1, get?_cons_self, Option.isSome_some]
  exact String.le_antisymm (le_of_isSome_get? hm hom) (le_of_isSome_get? ho hmo)

/-- What agrees under every key does so under the first one and, behind it, under every key. -/
theorem rel_get?_cons_iff (r : α → β → Prop) {k : String} {a : α} {b : β}
    {members : List (String × α)} {others : List (String × β)} (hm : Increasing ((k, a) :: members))
    (ho : Increasing ((k, b) :: others)) :
    (∀ key, Option.Rel r (get? key ((k, a) :: members)) (get? key ((k, b) :: others))) ↔
      r a b ∧ ∀ key, Option.Rel r (get? key members) (get? key others) := by
  constructor
  · intro h
    have hfirst := h k
    rw [get?_cons_self (k, a), get?_cons_self (k, b)] at hfirst
    refine ⟨Option.rel_some_some.1 hfirst, fun key => ?_⟩
    by_cases hkey : k = key
    · -- the first key comes before those behind it, so it is not among them
      rw [← hkey, get?_of_lt (List.pairwise_cons.1 hm).1, get?_of_lt (List.pairwise_cons.1 ho).1]
      exact .none
    · have hlater := h key
      rwa [get?_cons, if_neg hkey, get?_cons, if_neg hkey] at hlater
  · rintro ⟨hab, hlater⟩ key
    rw [get?_cons, get?_cons]
    split
    · exact .some hab
    · exact hlater key

/-- Members in the order of their keys agree one by one if they agree under every key. -/
theorem forall₂_iff_get? (r : α → β → Prop) {members : List (String × α)} {others : List (String × β)}
    (hm : Increasing members) (ho : Increasing others) :
    List.Forall₂ (fun m o => m.1 = o.1 ∧ r m.2 o.2) members others ↔
      ∀ key, Option.Rel r (get? key members) (get? key others) := by
  induction members generalizing others with
  | nil =>
    cases others with
    | nil => simp [get?]
    | cons o others =>
      refine iff_of_false (by rintro ⟨⟩) fun h => ?_
      have hkey := isSome_of_rel (h o.1)
      rw [get?_cons_self] at hkey
      cases hkey
  | cons m members ih =>
    cases others with
    | nil =>
      refine iff_of_false (by rintro ⟨⟩) fun h => ?_
      have hkey := isSome_of_rel (h m.1)
      rw [get?_cons_self] at hkey
      cases hkey
    | cons o others =>
      obtain ⟨k, a⟩ := m
      obtain ⟨l, b⟩ := o
      rw [List.forall₂_cons, ih (List.pairwise_cons.1 hm).2 (List.pairwise_cons.1 ho).2]
      constructor
      · rintro ⟨⟨rfl, hab⟩, hlater⟩
        exact (rel_get?_cons_iff r hm ho).2 ⟨hab, hlater⟩
      · intro h
        obtain rfl : k = l := head_key_eq hm ho fun key => isSome_of_rel (h key)
        obtain ⟨hab, hlater⟩ := (rel_get?_cons_iff r hm ho).1 h
        exact ⟨⟨rfl, hab⟩, hlater⟩

end Members

namespace Json

/-- The values say the same: arrays in order, objects as maps without an order, strings exactly, and
numbers by class and value. -/
inductive Equivalent : Json → Json → Prop
  | null : Equivalent null null
  | bool (b : Bool) : Equivalent (bool b) (bool b)
  | integer (n : Integer) : Equivalent (integer n) (integer n)
  | float {x y : Binary64.Finite} (value : x.value = y.value) : Equivalent (float x) (float y)
  | string (s : String) : Equivalent (string s) (string s)
  | array {items others : List Json} (each : List.Forall₂ Equivalent items others) :
    Equivalent (array items) (array others)
  | object {members others : List (String × Json)}
    (under : ∀ key, Option.Rel Equivalent (Members.last? key members) (Members.last? key others)) :
    Equivalent (object members) (object others)

theorem equivalent_array_iff {items others : List Json} :
    Equivalent (array items) (array others) ↔ List.Forall₂ Equivalent items others :=
  ⟨fun h => by cases h; assumption, .array⟩

theorem equivalent_object_iff {members others : List (String × Json)} :
    Equivalent (object members) (object others) ↔
      ∀ key, Option.Rel Equivalent (Members.last? key members) (Members.last? key others) :=
  ⟨fun h => by cases h; assumption, .object⟩

theorem equivalent_string_iff {s t : String} : Equivalent (string s) (string t) ↔ s = t :=
  ⟨fun h => by cases h; rfl, fun h => h ▸ .string s⟩

/-! ### Deciding it -/

theorem sameMembers_iff {members others : List (String × Json)} :
    sameMembers members others = true ↔
      List.Forall₂ (fun m o => m.1 = o.1 ∧ m.2.same o.2 = true) members others := by
  induction members generalizing others with
  | nil => cases others <;> simp [sameMembers]
  | cons m rest ih => cases others <;> simp [sameMembers, ih]

theorem sameMembers_iff_get? {members others : List (String × Json)}
    (hm : Members.Increasing members) (ho : Members.Increasing others) :
    sameMembers members others = true ↔ ∀ key, Option.Rel (fun v w => v.same w = true)
      (Members.get? key members) (Members.get? key others) :=
  sameMembers_iff.trans (Members.forall₂_iff_get? (fun v w : Json => v.same w = true) hm ho)

mutual

/-- **Values say the same exactly if their canonical forms are equal.** -/
theorem equivalent_iff : ∀ j k : Json, j.Equivalent k ↔ j.canonical.same k.canonical = true
  | .array items, k => by
    cases k with
    | array others =>
      rw [equivalent_array_iff, canonical, canonical, same]
      exact forall₂_equivalent_iff items others
    | _ => exact iff_of_false nofun (by simp [canonical, same])
  | .object members, k => by
    cases k with
    | object others =>
      rw [equivalent_object_iff, canonical, canonical, same,
        sameMembers_iff_get? (increasing_canonicalMembers members)
          (increasing_canonicalMembers others)]
      refine forall_congr' fun key => ?_
      rw [get?_canonicalMembers, get?_canonicalMembers, rel_map_iff]
      refine rel_congr fun value hvalue other _ => ?_
      exact equivalent_member_iff members _
        (Members.mem_all_iff.1 (Members.mem_all_of_last? hvalue)) other
    | _ => exact iff_of_false nofun (by simp [canonical, same])
  | .null, k => by
    cases k with
    | null => exact iff_of_true .null (by simp [canonical])
    | _ => exact iff_of_false nofun (by simp [canonical, same])
  | .bool b, k => by
    cases k with
    | bool c =>
      simp only [canonical, same, beq_iff_eq]
      exact ⟨fun h => by cases h; rfl, fun h => h ▸ .bool b⟩
    | _ => exact iff_of_false nofun (by simp [canonical, same])
  | .integer m, k => by
    cases k with
    | integer n =>
      simp only [canonical, same, beq_iff_eq]
      exact ⟨fun h => by cases h; rfl, fun h => h ▸ .integer m⟩
    | _ => exact iff_of_false nofun (by simp [canonical, same])
  | .float x, k => by
    cases k with
    | float y =>
      simp only [canonical, same, Binary64.Finite.sameNumber_iff]
      exact ⟨fun h => by cases h; assumption, .float⟩
    | _ => exact iff_of_false nofun (by simp [canonical, same])
  | .string s, k => by
    cases k with
    | string t =>
      simp only [canonical, same, beq_iff_eq]
      exact equivalent_string_iff
    | _ => exact iff_of_false nofun (by simp [canonical, same])

theorem forall₂_equivalent_iff : ∀ items others : List Json,
    List.Forall₂ Equivalent items others ↔
      sameItems (canonicalItems items) (canonicalItems others) = true
  | [], others => by cases others <;> simp [canonicalItems, sameItems]
  | item :: rest, [] => by simp [canonicalItems, sameItems]
  | item :: rest, other :: others => by
    rw [List.forall₂_cons, canonicalItems, canonicalItems, sameItems, Bool.and_eq_true,
      equivalent_iff item, forall₂_equivalent_iff rest]

theorem equivalent_member_iff : ∀ members : List (String × Json), ∀ m ∈ members, ∀ k : Json,
    m.2.Equivalent k ↔ m.2.canonical.same k.canonical = true
  | (_, value) :: rest, m, hm, k => by
    rcases List.mem_cons.1 hm with rfl | hm
    · exact equivalent_iff value k
    · exact equivalent_member_iff rest m hm k

end

instance (j k : Json) : Decidable (j.Equivalent k) := decidable_of_iff _ (equivalent_iff j k).symm

theorem same_iff_equivalent {j k : Json} (hj : j.IsCanonical) (hk : k.IsCanonical) :
    j.same k = true ↔ j.Equivalent k := by
  rw [equivalent_iff, canonical_of_isCanonical j hj, canonical_of_isCanonical k hk]

theorem Equivalent.refl (j : Json) : j.Equivalent j := (equivalent_iff j j).2 (same_refl _)

end Json

end DocTree
