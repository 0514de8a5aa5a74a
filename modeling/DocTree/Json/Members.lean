/-!
# Members by key

A list of members, each a key and a value, as the text of an object gives them: in any order, and
with keys repeated.  `Members.sorted` is what such a list means where the order does not count: each
key once, with the value written last, keys ascending by code point.  `Members.Increasing` says that
a list has that form.  The maps in which the package `serde_json` holds objects are assumed to be of
this form, and to be filled member by member, a later value in place of an earlier one.
-/

namespace DocTree.Members

variable {α : Type}

/-- The keys strictly increase; so none is repeated. -/
def Increasing (members : List (String × α)) : Prop :=
  members.Pairwise fun a b => a.1 < b.1

/-- Adds a member that was written before the others: an equal key among them has the later value,
which stays. -/
def insertEarlier (key : String) (value : α) : List (String × α) → List (String × α)
  | [] => [(key, value)]
  | (k, v) :: rest =>
    if key < k then (key, value) :: (k, v) :: rest
    else if key = k then (k, v) :: rest
    else (k, v) :: insertEarlier key value rest

/-- The members in the order of their keys, each key with its last value. -/
def sorted (members : List (String × α)) : List (String × α) :=
  members.foldr (fun (k, v) rest => insertEarlier k v rest) []

/-- The value under a key in a list of members without repeated keys. -/
def get? (key : String) (members : List (String × α)) : Option α :=
  (members.find? (·.1 = key)).map (·.2)

theorem mem_insertEarlier {key : String} {value : α} {members : List (String × α)}
    {m : String × α} (h : m ∈ insertEarlier key value members) :
    m = (key, value) ∨ m ∈ members := by
  induction members with
  | nil => exact .inl (by simpa [insertEarlier] using h)
  | cons head rest ih =>
    obtain ⟨k, v⟩ := head
    simp only [insertEarlier] at h
    split at h
    · simpa using h
    · split at h
      · exact .inr h
      · rcases List.mem_cons.1 h with rfl | h
        · exact .inr List.mem_cons_self
        · exact (ih h).imp_right (List.mem_cons_of_mem _)

theorem increasing_insertEarlier {key : String} {value : α} {members : List (String × α)}
    (h : Increasing members) : Increasing (insertEarlier key value members) := by
  induction members with
  | nil => exact List.pairwise_singleton _ _
  | cons head rest ih =>
    obtain ⟨k, v⟩ := head
    obtain ⟨hk, hrest⟩ := List.pairwise_cons.1 h
    simp only [insertEarlier]
    -- before the first key, at it, or behind it
    split
    next hlt =>
      refine List.pairwise_cons.2 ⟨fun m hm => ?_, h⟩
      rcases List.mem_cons.1 hm with rfl | hm
      · exact hlt
      · exact String.lt_trans hlt (hk m hm)
    next hlt =>
      split
      · exact h
      next hne =>
        refine List.pairwise_cons.2 ⟨fun m hm => ?_, ih hrest⟩
        rcases mem_insertEarlier hm with rfl | hm
        · exact Decidable.byContradiction fun hgt =>
            hne (String.le_antisymm (String.not_lt.1 hgt) (String.not_lt.1 hlt))
        · exact hk m hm

theorem increasing_sorted (members : List (String × α)) : Increasing (sorted members) := by
  induction members with
  | nil => exact .nil
  | cons head rest ih => exact increasing_insertEarlier ih

end DocTree.Members
