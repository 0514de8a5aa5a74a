import DocTree.Node.Printer
import DocTree.Proofs.Json.RoundTrip

/-!
# How deep trees nest when written

The written form of a node nests as deep as the node says (`Node.nesting`): the object of the node is
one container, the array of its content another, and a property map a third.  A text that says the
node may nest less, for it may leave out content that is empty; `Node.leastNesting` is the nesting
without it, and at most one less (`Node.nesting_le_leastNesting`).
-/

namespace DocTree

open Json

namespace Json

@[simp] theorem nesting_string (s : String) : (string s).nesting = 0 := by simp [nesting]

theorem nestingItems_le_iff {items : List Json} {n : Nat} :
    nestingItems items ≤ n ↔ ∀ item ∈ items, item.nesting ≤ n := by
  induction items with
  | nil => simp [nestingItems]
  | cons item rest ih => rw [nestingItems, Nat.max_le, ih, List.forall_mem_cons]

theorem nestingMembers_le_iff {members : List (String × Json)} {n : Nat} :
    nestingMembers members ≤ n ↔ ∀ m ∈ members, m.2.nesting ≤ n := by
  induction members with
  | nil => simp [nestingMembers]
  | cons m rest ih => rw [nestingMembers, Nat.max_le, ih, List.forall_mem_cons]

theorem nestingMembers_append (members later : List (String × Json)) :
    nestingMembers (members ++ later) = max (nestingMembers members) (nestingMembers later) := by
  induction members with
  | nil => simp [nestingMembers]
  | cons m rest ih => rw [List.cons_append, nestingMembers, nestingMembers, ih, Nat.max_assoc]

mutual

/-- Sorting the members of objects makes nothing nest deeper. -/
theorem nesting_canonical_le : ∀ j : Json, j.canonical.nesting ≤ j.nesting
  | .array items => by
    rw [canonical, nesting, nesting]
    exact Nat.succ_le_succ (nestingItems_canonicalItems_le items)
  | .object members => by
    rw [canonical, nesting, nesting]
    exact Nat.succ_le_succ (nestingMembers_canonicalMembers_le members)
  | .null | .bool _ | .integer _ | .float _ | .string _ => by simp [canonical, nesting]

theorem nestingItems_canonicalItems_le : ∀ items : List Json,
    nestingItems (canonicalItems items) ≤ nestingItems items
  | [] => Nat.le_refl _
  | item :: rest => by
    have hitem := nesting_canonical_le item
    have hrest := nestingItems_canonicalItems_le rest
    rw [canonicalItems, nestingItems, nestingItems]
    omega

theorem nestingMembers_canonicalMembers_le : ∀ members : List (String × Json),
    nestingMembers (canonicalMembers members) ≤ nestingMembers members
  | [] => Nat.le_refl _
  | (key, value) :: rest => by
    have hvalue := nesting_canonical_le value
    have hrest := nestingMembers_canonicalMembers_le rest
    rw [canonicalMembers, nestingMembers, nestingMembers_le_iff]
    intro m hm
    rcases Members.mem_insertEarlier hm with rfl | hm
    · exact hvalue.trans (Nat.le_max_left _ _)
    · exact ((nestingMembers_le_iff.1 hrest) m hm).trans (Nat.le_max_right _ _)

end

theorem nesting_le_of_mem {members : List (String × Json)} {m : String × Json} (h : m ∈ members) :
    m.2.nesting ≤ nestingMembers members :=
  nestingMembers_le_iff.1 (Nat.le_refl _) m h

end Json

namespace Node

/-- The nesting of a property map that may be absent. -/
def propertiesNesting : Option Properties → Nat
  | none => 0
  | some p => p.toJson.nesting

/-- The nesting of extra fields in the object of their node. -/
def extraNesting (x : Extra) : Nat := nestingMembers x.members

mutual

/-- The number of containers that are open at the same time in the written form of a node. -/
def nesting : Node → Nat
  | root children extra => max (nestingAll children + 1) (extraNesting extra) + 1
  | element _ properties children extra =>
    max (max (propertiesNesting properties) (nestingAll children + 1)) (extraNesting extra) + 1
  | text _ extra => extraNesting extra + 1
  | other _ _ none extra => extraNesting extra + 1
  | other _ _ (some children) extra => max (nestingAll children + 1) (extraNesting extra) + 1

/-- The same for nodes beside each other. -/
def nestingAll : List Node → Nat
  | [] => 0
  | node :: rest => max node.nesting (nestingAll rest)

end

mutual

/-- The same in a text that leaves out the content of roots and elements where it is empty. -/
def leastNesting : Node → Nat
  | root children extra => max (contentNesting children) (extraNesting extra) + 1
  | element _ properties children extra =>
    max (max (propertiesNesting properties) (contentNesting children)) (extraNesting extra) + 1
  | text _ extra => extraNesting extra + 1
  | other _ _ none extra => extraNesting extra + 1
  | other _ _ (some children) extra =>
    max (leastNestingAll children + 1) (extraNesting extra) + 1

/-- The same for nodes beside each other. -/
def leastNestingAll : List Node → Nat
  | [] => 0
  | node :: rest => max node.leastNesting (leastNestingAll rest)

/-- The nesting of content that is left out if it is empty. -/
def contentNesting : List Node → Nat
  | [] => 0
  | node :: rest => max node.leastNesting (leastNestingAll rest) + 1

end

theorem contentNesting_le (nodes : List Node) : contentNesting nodes ≤ leastNestingAll nodes + 1 := by
  cases nodes with
  | nil => exact Nat.zero_le _
  | cons node rest => rw [contentNesting, leastNestingAll]

theorem leastNestingAll_le_iff {nodes : List Node} {n : Nat} :
    leastNestingAll nodes ≤ n ↔ ∀ node ∈ nodes, node.leastNesting ≤ n := by
  induction nodes with
  | nil => simp [leastNestingAll]
  | cons node rest ih => rw [leastNestingAll, Nat.max_le, ih, List.forall_mem_cons]

/-! ### The written form -/

theorem nestingMembers_propertiesMember (properties : Option Properties) :
    nestingMembers (propertiesMember properties) = propertiesNesting properties := by
  cases properties with
  | none => rfl
  | some p => exact Nat.max_zero _

theorem nestingMembers_valueMember (value : Option String) :
    nestingMembers (valueMember value) = 0 := by
  cases value <;> rfl

theorem exists_of_toJsonAll_cons {node : Node} {rest : List Node} {items : List Json}
    (h : toJsonAll (node :: rest) = .ok items) :
    ∃ j others, items = j :: others ∧ node.toJson = .ok j ∧ toJsonAll rest = .ok others := by
  rw [toJsonAll] at h
  obtain ⟨j, hj, h⟩ := exists_of_bind_eq_ok h
  obtain ⟨others, hothers, h⟩ := exists_of_bind_eq_ok h
  cases h
  exact ⟨j, others, rfl, hj, hothers⟩

mutual

/-- What a node says of its nesting is true of its written form. -/
theorem nesting_of_toJson : ∀ (node : Node) {j : Json}, node.toJson = .ok j →
    j.nesting = node.nesting
  | root children extra, j, h => by
    rw [toJson] at h
    obtain ⟨items, hitems, h⟩ := exists_of_bind_eq_ok h
    cases h
    rw [Json.nesting, nestingMembers, nestingMembers, nesting_string, Json.nesting,
      nestingItems_of_toJsonAll children hitems, nesting, Nat.zero_max, extraNesting]
  | element tag properties children extra, j, h => by
    rw [toJson] at h
    split at h
    next => cases h
    next =>
      obtain ⟨items, hitems, h⟩ := exists_of_bind_eq_ok h
      cases h
      rw [Json.nesting, List.cons_append, List.cons_append, nestingMembers, nestingMembers,
        nestingMembers_append, nestingMembers_propertiesMember, nestingMembers, nesting_string,
        nesting_string, Json.nesting, nestingItems_of_toJsonAll children hitems, nesting,
        Nat.zero_max, Nat.zero_max, Nat.max_assoc, extraNesting]
  | text value extra, j, h => by
    rw [toJson] at h
    cases h
    rw [Json.nesting, nestingMembers, nestingMembers, nesting_string, nesting_string, nesting,
      Nat.zero_max, Nat.zero_max, extraNesting]
  | other kind value none extra, j, h => by
    rw [toJson] at h
    cases h
    rw [Json.nesting, List.cons_append, nestingMembers, nestingMembers_append,
      nestingMembers_valueMember, nesting_string, nesting, Nat.zero_max, Nat.zero_max, extraNesting]
  | other kind value (some children) extra, j, h => by
    rw [toJson] at h
    obtain ⟨items, hitems, h⟩ := exists_of_bind_eq_ok h
    cases h
    rw [Json.nesting, List.cons_append, List.cons_append, nestingMembers, nestingMembers,
      nestingMembers_append, nestingMembers_valueMember, nesting_string, Json.nesting,
      nestingItems_of_toJsonAll children hitems, nesting, Nat.zero_max, Nat.zero_max, extraNesting]

theorem nestingItems_of_toJsonAll : ∀ (nodes : List Node) {items : List Json},
    toJsonAll nodes = .ok items → nestingItems items = nestingAll nodes
  | [], items, h => by
    cases h
    rfl
  | node :: rest, items, h => by
    obtain ⟨j, others, rfl, hj, hothers⟩ := exists_of_toJsonAll_cons h
    rw [nestingItems, nesting_of_toJson node hj, nestingItems_of_toJsonAll rest hothers, nestingAll]

end

/-! ### Empty content -/

mutual

theorem nesting_le_leastNesting : ∀ node : Node, node.nesting ≤ node.leastNesting + 1
  | root children extra => by
    have h := nestingAll_le_contentNesting children
    rw [nesting, leastNesting]
    omega
  | element tag properties children extra => by
    have h := nestingAll_le_contentNesting children
    rw [nesting, leastNesting]
    omega
  | text value extra => by
    rw [nesting, leastNesting]
    omega
  | other kind value none extra => by
    rw [nesting, leastNesting]
    omega
  | other kind value (some children) extra => by
    have h := nestingAll_le_leastNestingAll children
    rw [nesting, leastNesting]
    omega

theorem nestingAll_le_leastNestingAll : ∀ nodes : List Node,
    nestingAll nodes ≤ leastNestingAll nodes + 1
  | [] => by simp [nestingAll]
  | node :: rest => by
    have hn := nesting_le_leastNesting node
    have hr := nestingAll_le_leastNestingAll rest
    rw [nestingAll, leastNestingAll]
    omega

theorem nestingAll_le_contentNesting : ∀ nodes : List Node, nestingAll nodes ≤ contentNesting nodes
  | [] => by simp [nestingAll]
  | node :: rest => by
    have hn := nesting_le_leastNesting node
    have hr := nestingAll_le_leastNestingAll rest
    rw [nestingAll, contentNesting]
    omega

end

end Node

end DocTree
