import DocTree.Proofs.Json.RepeatedKeys
import DocTree.Proofs.Node.Decode
import Mathlib.Data.List.Induction

/-!
# Which values are property maps

The property values and property maps among JSON values, and the map that such a value stands for.
All members have to be properties, also those that a later one with an equal key overrides; in the map
a repeated key has its first place and its last value (`Properties.ofMembers`).
-/

namespace DocTree

open Json

/-! ### Property values -/

namespace Json

/-- A number or a string. -/
def isPropertyItem : Json → Bool
  | integer _ | float _ | string _ => true
  | _ => false

/-- A boolean, a number, a string, null, or an array of numbers and strings. -/
def isPropertyValue : Json → Bool
  | array items => items.all isPropertyItem
  | object _ => false
  | _ => true

end Json

namespace PropertyValue

theorem isSome_itemOfJson? (j : Json) : (itemOfJson? j).isSome = j.isPropertyItem := by
  cases j <;> rfl

theorem isSome_ofJson? (j : Json) : (ofJson? j).isSome = j.isPropertyValue := by
  cases j with
  | array items =>
    rw [ofJson?, Option.isSome_map, isPropertyValue]
    induction items with
    | nil => rfl
    | cons item rest ih =>
      rw [List.all_cons, ← ih, ← isSome_itemOfJson?, List.mapM_cons]
      cases itemOfJson? item with
      | none => rfl
      | some i => cases rest.mapM itemOfJson? <;> rfl
  | _ => rfl

end PropertyValue

/-! ### Property maps -/

theorem eraseDups_concat (keys : List String) (key : String) :
    (keys ++ [key]).eraseDups = keys.eraseDups ++ if key ∈ keys then [] else [key] := by
  rw [List.eraseDups_append]
  by_cases h : key ∈ keys
  · simp [List.removeAll, h]
  · simp [List.removeAll, h, List.eraseDups_cons]

theorem nodup_eraseDups (keys : List String) : keys.eraseDups.Nodup := by
  induction keys using List.reverseRecOn with
  | nil => exact .nil
  | append_singleton keys key ih =>
    rw [eraseDups_concat]
    by_cases h : key ∈ keys
    · rw [if_pos h, List.append_nil]
      exact ih
    · rw [if_neg h]
      refine List.nodup_append.2 ⟨ih, List.pairwise_singleton _ key, ?_⟩
      rintro a ha b hb rfl
      exact h (List.mem_singleton.1 hb ▸ List.mem_eraseDups.1 ha)

namespace Properties

/-- The value of a property that members give: that of the last one with its name. -/
def valueIn (members : List (String × Json)) (name : String) : PropertyValue :=
  ((Members.last? name members).bind PropertyValue.ofJson?).getD .null

/-- The map that members stand for: every name in its first place, with its last value. -/
def ofMembers (members : List (String × Json)) : Properties where
  entries := (members.map (·.1)).eraseDups.map fun name => (name, valueIn members name)
  nodup := by
    rw [List.map_map]
    exact (List.map_id _).symm ▸ nodup_eraseDups _

theorem ext_entries {p q : Properties} (h : p.entries = q.entries) : p = q := by
  cases p
  cases q
  cases h
  rfl

theorem put_map_of_mem {keys : List String} {name : String} (hname : name ∈ keys)
    (hkeys : keys.Nodup) (f : String → PropertyValue) (value : PropertyValue) :
    put name value (keys.map fun key => (key, f key)) =
      keys.map fun key => (key, if key = name then value else f key) := by
  induction keys with
  | nil => cases hname
  | cons key rest ih =>
    obtain ⟨hkey, hrest⟩ := List.nodup_cons.1 hkeys
    rw [List.map_cons, List.map_cons, put]
    by_cases heq : key = name
    · -- the name does not come again, so the entries behind stay
      rw [if_pos heq, if_pos heq]
      refine congrArg _ (List.map_congr_left fun other hother => ?_)
      have hne : other ≠ name := by
        rintro rfl
        exact hkey (heq.symm ▸ hother)
      rw [if_neg hne]
    · rw [if_neg heq, if_neg heq,
        ih ((List.mem_cons.1 hname).resolve_left (Ne.symm heq)) hrest]

theorem put_map_of_not_mem {keys : List String} {name : String} (hname : name ∉ keys)
    (f : String → PropertyValue) (value : PropertyValue) :
    put name value (keys.map fun key => (key, f key)) =
      keys.map (fun key => (key, f key)) ++ [(name, value)] := by
  induction keys with
  | nil => rfl
  | cons key rest ih =>
    obtain ⟨hkey, hrest⟩ := not_or.1 (List.mem_cons.not.1 hname)
    rw [List.map_cons, put, if_neg (Ne.symm hkey), ih hrest, List.cons_append]

/-- A member behind the others is set in the map that they stand for. -/
theorem ofMembers_concat (members : List (String × Json)) (name : String) {j : Json}
    {value : PropertyValue} (hvalue : PropertyValue.ofJson? j = some value) :
    ofMembers (members ++ [(name, j)]) = (ofMembers members).insert name value := by
  have hlast : ∀ key, valueIn (members ++ [(name, j)]) key =
      if key = name then value else valueIn members key := by
    intro key
    rw [valueIn, Members.last?_concat]
    by_cases h : name = key
    · rw [if_pos h, if_pos h.symm, Option.bind_some, hvalue, Option.getD_some]
    · rw [if_neg h, if_neg (Ne.symm h), valueIn]
  refine ext_entries ?_
  simp only [ofMembers, insert, List.map_append, List.map_cons, List.map_nil, eraseDups_concat,
    hlast]
  -- a name that is there keeps its place, and a new one comes last
  by_cases h : name ∈ members.map (·.1)
  · rw [if_pos h, List.map_nil, List.append_nil,
      put_map_of_mem (List.mem_eraseDups.2 h) (nodup_eraseDups _)]
  · have hnot : name ∉ (members.map (·.1)).eraseDups := fun hmem => h (List.mem_eraseDups.1 hmem)
    rw [if_neg h, put_map_of_not_mem hnot, List.map_singleton, if_pos rfl]
    refine congrArg (· ++ _) (List.map_congr_left fun key hkey => ?_)
    have hne : key ≠ name := by
      rintro rfl
      exact hnot hkey
    rw [if_neg hne]

theorem names_ofMembers (members : List (String × Json)) :
    (ofMembers members).names = (members.map (·.1)).eraseDups := by
  rw [names, ofMembers, List.map_map]
  exact List.map_id _

theorem lookup_map (keys : List String) (f : String → PropertyValue) (name : String) :
    lookup name (keys.map fun key => (key, f key)) = if name ∈ keys then some (f name) else none := by
  induction keys with
  | nil => rfl
  | cons key rest ih =>
    rw [List.map_cons, lookup, ih]
    by_cases h : key = name
    · simp [h]
    · simp [h, Ne.symm h]

theorem get?_ofMembers (members : List (String × Json)) (name : String) :
    (ofMembers members).get? name =
      (Members.last? name members).map fun j => (PropertyValue.ofJson? j).getD .null := by
  rw [get?, ofMembers, lookup_map, valueIn]
  simp only [List.mem_eraseDups, ← Members.isSome_last?_iff]
  cases Members.last? name members <;> rfl

/-- Members make a property map if all of them are properties, and then the one they stand for. -/
theorem addAll_add?_eq_some_iff {members : List (String × Json)} {p : Properties} :
    addAll add? .empty members = some p ↔
      (∀ m ∈ members, m.2.isPropertyValue = true) ∧ p = ofMembers members := by
  -- properties are set from left to right, so the induction takes the last member off
  induction members using List.reverseRecOn generalizing p with
  | nil =>
    constructor
    · rintro ⟨⟩
      exact ⟨fun m hm => absurd hm List.not_mem_nil, rfl⟩
    · rintro ⟨-, rfl⟩
      rfl
  | append_singleton members m ih =>
    obtain ⟨name, j⟩ := m
    rw [addAll_append_singleton, Option.bind_eq_some_iff, List.forall_mem_append,
      List.forall_mem_singleton, ← PropertyValue.isSome_ofJson?]
    constructor
    · rintro ⟨q, hq, hp⟩
      obtain ⟨hmembers, rfl⟩ := ih.1 hq
      obtain ⟨value, hvalue, rfl⟩ := Option.map_eq_some_iff.1 hp
      exact ⟨⟨hmembers, by rw [hvalue]; rfl⟩, (ofMembers_concat members name hvalue).symm⟩
    · rintro ⟨⟨hmembers, hj⟩, rfl⟩
      obtain ⟨value, hvalue⟩ := Option.isSome_iff_exists.1 hj
      refine ⟨ofMembers members, ih.2 ⟨hmembers, rfl⟩, ?_⟩
      rw [add?, hvalue, Option.map_some, ofMembers_concat members name hvalue]

end Properties

end DocTree
