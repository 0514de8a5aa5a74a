import DocTree.Proofs.Json.Embedded
import Mathlib.Data.List.Nodup

/-!
# Repeated keys

What a list of members says under one key: all values in order (`Members.all`), of which the last one
(`Members.last?`) may be the only one that counts.  In canonical form it is the one that is left
(`Json.get?_canonicalMembers`).
-/

namespace DocTree

namespace Members

variable {α : Type}

/-- The values under a key, in the order written. -/
def all (key : String) (members : List (String × α)) : List α :=
  (members.filter (·.1 = key)).map (·.2)

/-- The value under a key that is written last. -/
def last? (key : String) (members : List (String × α)) : Option α := (all key members).getLast?

theorem mem_all_iff {key : String} {value : α} {members : List (String × α)} :
    value ∈ all key members ↔ (key, value) ∈ members := by
  simp only [all, List.mem_map, List.mem_filter, decide_eq_true_eq]
  constructor
  · rintro ⟨⟨_, _⟩, ⟨hm, rfl⟩, rfl⟩
    exact hm
  · exact fun hm => ⟨(key, value), ⟨hm, rfl⟩, rfl⟩

@[simp] theorem all_append (key : String) (before after : List (String × α)) :
    all key (before ++ after) = all key before ++ all key after := by
  simp only [all, List.filter_append, List.map_append]

theorem all_singleton (key name : String) (value : α) :
    all key [(name, value)] = if name = key then [value] else [] := by
  by_cases h : name = key
  · simp [all, h]
  · simp [all, h]

theorem all_cons (key name : String) (value : α) (members : List (String × α)) :
    all key ((name, value) :: members) =
      (if name = key then [value] else []) ++ all key members := by
  rw [← List.singleton_append, all_append, all_singleton]

theorem all_map {β : Type} (key : String) (f : α → β) (members : List (String × α)) :
    all key (members.map fun m => (m.1, f m.2)) = (all key members).map f := by
  induction members with
  | nil => rfl
  | cons head rest ih =>
    obtain ⟨name, value⟩ := head
    rw [List.map_cons, all_cons, all_cons, ih, List.map_append]
    split <;> rfl

/-- A choice among the members by their keys takes all values under a key or none. -/
theorem all_filter (key : String) (p : String → Bool) (members : List (String × α)) :
    all key (members.filter fun m => p m.1) = if p key then all key members else [] := by
  induction members with
  | nil => cases p key <;> rfl
  | cons head rest ih =>
    obtain ⟨name, value⟩ := head
    rw [List.filter_cons, all_cons]
    by_cases hname : name = key
    · subst hname
      cases hp : p name with
      | false => simpa [hp] using ih
      | true => simp [hp, all_cons, ih]
    · cases hp : p name with
      | false => simpa [hp, hname] using ih
      | true => simp [hname, all_cons, ih]

@[simp] theorem last?_nil (key : String) : last? key ([] : List (String × α)) = none := rfl

/-- A change of the values only changes the last value under a key. -/
theorem last?_map {β : Type} (key : String) (f : α → β) (members : List (String × α)) :
    last? key (members.map fun m => (m.1, f m.2)) = (last? key members).map f := by
  rw [last?, all_map, List.getLast?_map, last?]

theorem last?_append (key : String) (before after : List (String × α)) :
    last? key (before ++ after) = (last? key after).or (last? key before) := by
  rw [last?, all_append, List.getLast?_append]
  rfl

theorem last?_singleton (key name : String) (value : α) :
    last? key [(name, value)] = if name = key then some value else none := by
  rw [last?, all_singleton]
  split <;> rfl

theorem last?_concat (key name : String) (value : α) (members : List (String × α)) :
    last? key (members ++ [(name, value)]) = if name = key then some value else last? key members := by
  rw [last?_append, last?_singleton]
  split <;> rfl

theorem last?_cons (key name : String) (value : α) (members : List (String × α)) :
    last? key ((name, value) :: members) =
      (last? key members).or (if name = key then some value else none) := by
  rw [← List.singleton_append, last?_append, last?_singleton]

theorem last?_eq_none_iff {key : String} {members : List (String × α)} :
    last? key members = none ↔ all key members = [] := List.getLast?_eq_none_iff

theorem mem_all_of_last? {key : String} {value : α} {members : List (String × α)}
    (h : last? key members = some value) : value ∈ all key members := List.mem_of_getLast? h

theorem isSome_last?_iff {key : String} {members : List (String × α)} :
    (last? key members).isSome ↔ key ∈ members.map (·.1) := by
  constructor
  · intro h
    obtain ⟨value, hvalue⟩ := Option.isSome_iff_exists.1 h
    exact List.mem_map.2 ⟨(key, value), mem_all_iff.1 (mem_all_of_last? hvalue), rfl⟩
  · intro h
    obtain ⟨⟨_, value⟩, hm, rfl⟩ := List.mem_map.1 h
    rw [Option.isSome_iff_ne_none, Ne, last?_eq_none_iff]
    exact List.ne_nil_of_mem (mem_all_iff.2 hm)

/-- There is one value at most under a key that is not repeated. -/
theorem length_all_le_one {members : List (String × α)} (h : (members.map (·.1)).Nodup)
    (key : String) : (all key members).length ≤ 1 := by
  induction members with
  | nil => exact Nat.zero_le 1
  | cons head rest ih =>
    obtain ⟨name, value⟩ := head
    obtain ⟨hname, hrest⟩ := List.nodup_cons.1 h
    rw [all_cons]
    by_cases heq : name = key
    · have hnone : all key rest = [] := by
        rw [← last?_eq_none_iff, ← Option.not_isSome_iff_eq_none, isSome_last?_iff, ← heq]
        exact hname
      rw [if_pos heq, hnone]
      exact Nat.le_refl 1
    · rw [if_neg heq]
      exact ih hrest

theorem last?_eq_some_iff_mem {members : List (String × α)} (h : (members.map (·.1)).Nodup)
    {key : String} {value : α} : last? key members = some value ↔ (key, value) ∈ members := by
  have hlength := length_all_le_one h key
  rw [← mem_all_iff, last?]
  match all key members, hlength with
  | [], _ => simp
  | [only], _ => simp [eq_comm]

theorem eq_of_mem_of_mem {members : List (String × α)} (h : (members.map (·.1)).Nodup)
    {key : String} {a b : α} (ha : (key, a) ∈ members) (hb : (key, b) ∈ members) : a = b := by
  rw [← last?_eq_some_iff_mem h] at ha hb
  exact Option.some.inj (ha.symm.trans hb)

theorem get?_cons (key name : String) (value : α) (members : List (String × α)) :
    get? key ((name, value) :: members) = if name = key then some value else get? key members := by
  rw [get?, List.find?_cons]
  by_cases h : name = key
  · simp [h]
  · simp [h, get?]

@[simp] theorem get?_cons_self (m : String × α) (members : List (String × α)) :
    get? m.1 (m :: members) = some m.2 := by
  rw [get?_cons, if_pos rfl]

theorem get?_eq_some_iff_mem {members : List (String × α)} (h : (members.map (·.1)).Nodup)
    {key : String} {value : α} : get? key members = some value ↔ (key, value) ∈ members := by
  induction members with
  | nil => simp [get?]
  | cons head rest ih =>
    obtain ⟨name, first⟩ := head
    obtain ⟨hname, hrest⟩ := List.nodup_cons.1 h
    rw [get?_cons, List.mem_cons, Prod.mk.injEq]
    by_cases heq : name = key
    · have hnot : (key, value) ∉ rest := fun hmem =>
        hname (heq ▸ List.mem_map_of_mem (f := (·.1)) hmem)
      simp [heq, hnot, eq_comm]
    · rw [if_neg heq, ih hrest]
      simp [Ne.symm heq]

theorem get?_of_lt {key : String} {members : List (String × α)} (h : ∀ m ∈ members, key < m.1) :
    get? key members = none := by
  rw [get?, Option.map_eq_none_iff, List.find?_eq_none]
  intro m hm heq
  have hlt := h m hm
  rw [of_decide_eq_true heq] at hlt
  exact String.lt_irrefl key hlt

/-- A member that is added as an earlier one counts if there is no other with its key. -/
theorem get?_insertEarlier {key : String} {value : α} {members : List (String × α)}
    (h : Increasing members) (other : String) :
    get? other (insertEarlier key value members) =
      (get? other members).or (if key = other then some value else none) := by
  induction members with
  | nil => rw [insertEarlier, get?_cons]; rfl
  | cons head rest ih =>
    obtain ⟨k, v⟩ := head
    obtain ⟨hlt, hrest⟩ := List.pairwise_cons.1 h
    rw [insertEarlier]
    by_cases hbefore : key < k
    · -- the key is not among the later ones, since they increase
      rw [if_pos hbefore, get?_cons]
      by_cases heq : key = other
      · have hnone : get? other ((k, v) :: rest) = none := by
          refine get?_of_lt (List.forall_mem_cons.2 ⟨heq ▸ hbefore, fun m hm => ?_⟩)
          exact String.lt_trans (heq ▸ hbefore) (hlt m hm)
        rw [if_pos heq, if_pos heq, hnone, Option.none_or]
      · rw [if_neg heq, if_neg heq, Option.or_none]
    · rw [if_neg hbefore]
      by_cases heq : key = k
      · rw [if_pos heq, get?_cons, heq]
        by_cases hother : k = other
        · rw [if_pos hother]
          rfl
        · rw [if_neg hother, if_neg hother, Option.or_none]
      · rw [if_neg heq, get?_cons, get?_cons, ih hrest]
        by_cases hother : k = other
        · rw [if_pos hother, if_pos hother]
          rfl
        · rw [if_neg hother, if_neg hother]

/-- Of equal keys the last one is left. -/
theorem get?_sorted (key : String) (members : List (String × α)) :
    get? key (sorted members) = last? key members := by
  induction members with
  | nil => rfl
  | cons head rest ih =>
    obtain ⟨name, value⟩ := head
    change get? key (insertEarlier name value (sorted rest)) = _
    rw [get?_insertEarlier (increasing_sorted rest), ih, last?_cons]

theorem isSome_get?_iff {key : String} {members : List (String × α)} :
    (get? key members).isSome ↔ key ∈ members.map (·.1) := by
  induction members with
  | nil => simp [get?]
  | cons head rest ih =>
    obtain ⟨name, value⟩ := head
    rw [get?_cons, List.map_cons, List.mem_cons]
    by_cases h : name = key
    · simp [h]
    · rw [if_neg h, ih]
      simp [Ne.symm h]

/-- Sorting keeps the keys. -/
theorem mem_keys_sorted_iff {key : String} {members : List (String × α)} :
    key ∈ (sorted members).map (·.1) ↔ key ∈ members.map (·.1) := by
  rw [← isSome_get?_iff, get?_sorted, isSome_last?_iff]

/-! ### The order of members -/

theorem nodup_of_increasing {members : List (String × α)} (h : Increasing members) :
    (members.map (·.1)).Nodup := by
  refine List.pairwise_map.2 (h.imp fun {a b} hlt heq => ?_)
  rw [heq] at hlt
  exact String.lt_irrefl _ hlt

/-- Members in the order of their keys are determined by what stands under each key. -/
theorem eq_of_get? {members others : List (String × α)} (hm : Increasing members)
    (ho : Increasing others) (h : ∀ key, get? key members = get? key others) :
    members = others := by
  have hkeys := nodup_of_increasing hm
  have hothers := nodup_of_increasing ho
  have hmem : ∀ m : String × α, m ∈ members ↔ m ∈ others := fun m => by
    rw [← get?_eq_some_iff_mem hkeys, ← get?_eq_some_iff_mem hothers, h]
  have hperm : members.Perm others :=
    (List.perm_ext_iff_of_nodup (hkeys.of_map _) (hothers.of_map _)).2 hmem
  exact hperm.eq_of_pairwise
    (fun a b _ _ hab hba => absurd (String.lt_trans hab hba) (String.lt_irrefl a.1)) hm ho

/-- What members mean where their order does not count is determined by the last ones. -/
theorem sorted_congr {members others : List (String × α)}
    (h : ∀ key, last? key members = last? key others) : sorted members = sorted others :=
  eq_of_get? (increasing_sorted members) (increasing_sorted others) fun key => by
    rw [get?_sorted, get?_sorted, h]

/-- Without repeated keys, sorting is a change of order alone. -/
theorem sorted_perm {members : List (String × α)} (h : (members.map (·.1)).Nodup) :
    (sorted members).Perm members := by
  have hsorted := nodup_of_increasing (increasing_sorted members)
  refine (List.perm_ext_iff_of_nodup (hsorted.of_map _) (h.of_map _)).2 fun m => ?_
  rw [← get?_eq_some_iff_mem hsorted, get?_sorted, last?_eq_some_iff_mem h]

theorem last?_of_perm {members others : List (String × α)} (hperm : others.Perm members)
    (hkeys : (members.map (·.1)).Nodup) (key : String) : last? key others = last? key members := by
  have hothers : (others.map (·.1)).Nodup := (hperm.map _).nodup_iff.2 hkeys
  refine Option.ext fun value => ?_
  rw [last?_eq_some_iff_mem hothers, last?_eq_some_iff_mem hkeys, hperm.mem_iff]

/-- The members without those that a later one with the same key overrides. -/
def lastOnly : List (String × α) → List (String × α)
  | [] => []
  | m :: rest => if m.1 ∈ rest.map (·.1) then lastOnly rest else m :: lastOnly rest

theorem last?_lastOnly (key : String) (members : List (String × α)) :
    last? key (lastOnly members) = last? key members := by
  induction members with
  | nil => rfl
  | cons head rest ih =>
    obtain ⟨name, value⟩ := head
    rw [lastOnly, last?_cons]
    by_cases hlater : name ∈ rest.map (·.1)
    · rw [if_pos hlater, ih]
      by_cases hname : name = key
      · obtain ⟨last, hlast⟩ := Option.isSome_iff_exists.1 (isSome_last?_iff.2 (hname ▸ hlater))
        rw [hlast]
        rfl
      · rw [if_neg hname, Option.or_none]
    · rw [if_neg hlater, last?_cons, ih]

theorem lastOnly_sublist (members : List (String × α)) : (lastOnly members).Sublist members := by
  induction members with
  | nil => exact .slnil
  | cons head rest ih =>
    rw [lastOnly]
    split
    · exact ih.cons head
    · exact ih.cons_cons head

theorem nodup_keys_lastOnly (members : List (String × α)) :
    ((lastOnly members).map (·.1)).Nodup := by
  induction members with
  | nil => exact .nil
  | cons head rest ih =>
    rw [lastOnly]
    split
    · exact ih
    next hlater =>
      exact List.nodup_cons.2 ⟨fun h => hlater (((lastOnly_sublist rest).map _).subset h), ih⟩

end Members

namespace Json

/-- Of equal keys the last one is left, with its value in canonical form. -/
theorem get?_canonicalMembers (key : String) (members : List (String × Json)) :
    Members.get? key (canonicalMembers members) = (Members.last? key members).map canonical := by
  induction members with
  | nil => rfl
  | cons head rest ih =>
    obtain ⟨name, value⟩ := head
    rw [canonicalMembers, Members.get?_insertEarlier (increasing_canonicalMembers rest), ih,
      Members.last?_cons]
    cases Members.last? key rest with
    | some last => rfl
    | none =>
      by_cases hname : name = key
      · rw [if_pos hname, if_pos hname]
        rfl
      · rw [if_neg hname, if_neg hname]
        rfl

end Json

end DocTree
