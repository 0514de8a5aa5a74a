import DocTree.Proofs.Json.Refused
import DocTree.Proofs.Node.Accepted

/-!
# What is wrong with a value

All that is wrong with a value as a node, in the order in which a reader from left to right comes to it
(`Node.offences`).  A value of the wrong type is an offence where it stands, a field that is given again
at its key, and what a node lacks where its object closes (`Node.closingOffences`).  What is wrong as a
tree is that and, after all of it, the kind of the outermost node (`Root.offences`).

So what is wrong with a node in the content comes before what the object around it closes with
(`Root.offences_eq_append`).  A text embedded in an extra field is read where the object closes,
and is an offence there if it says nothing; where no object begins like an embedded text there is no
such offence (`Root.isEmbedded_of_mem_offences`).
-/

namespace DocTree

open Json

/-- Whether the offence is of an embedded text. -/
def Mismatch.isEmbedded : Mismatch → Bool
  | embedded _ => true
  | _ => false

namespace Node

/-! ### Offences in reading order -/

/-- The offence of a value where a string has to stand. -/
def stringOffences : Json → List Mismatch
  | .string _ => []
  | j => [.wrongType j.head .string]

/-- The same where null may stand as well. -/
def optionalStringOffences : Json → List Mismatch
  | .null => []
  | .string _ => []
  | j => [.wrongType j.head .string]

/-- The offence of a value where that of a property has to stand. -/
def propertyOffences (j : Json) : List Mismatch :=
  if j.isPropertyValue then [] else [.notPropertyValue]

/-- The offences of a value where a property map or null has to stand: those of its members. -/
def propertiesOffences : Json → List Mismatch
  | .null => []
  | .object members => members.flatMap fun m => propertyOffences m.2
  | j => [.wrongType j.head .properties]

/-- The offences of the value of a field, given those that it has as children. -/
def Field.offences (field : Field) (j : Json) (children : List Mismatch) : List Mismatch :=
  match field with
  | .type => stringOffences j
  | .tagName => optionalStringOffences j
  | .value => optionalStringOffences j
  | .properties => propertiesOffences j
  | .children => children

/-- The offences of a member behind others: a field that is there already offends at its key.  Nothing
is wrong with a member that is no field. -/
def memberOffences (before : List (String × Json)) (key : String) (j : Json)
    (children : List Mismatch) : List Mismatch :=
  match Field.ofKey? key with
  | none => []
  | some field =>
    (if key ∈ before.map (·.1) then [.duplicateField key] else []) ++ field.offences j children

/-- What an element lacks without a tag, and a text without a value. -/
def kindOffences (members : List (String × Json)) : List Mismatch :=
  match stringIn Field.type.key members with
  | some "element" =>
    match Members.last? Field.tagName.key members with
    | none | some .null => [.fault (.missingField "tagName" "element")]
    | some (.string tag) => if tag = "" then [.fault .emptyTag] else []
    | some _ => []
  | some "text" =>
    match Members.last? Field.value.key members with
    | none | some .null => [.fault (.missingField "value" "text")]
    | some _ => []
  | _ => []

/-- The first text embedded in extra fields that cannot be read. -/
def embeddedOffences (members : List (String × Json)) : List Mismatch :=
  match resolveMembers (extraMembers members) with
  | .ok _ => []
  | .error fault => [.embedded fault]

/-- The offences that a node's object closes with. -/
def closingOffences (members : List (String × Json)) : List Mismatch :=
  (if Field.type.key ∈ members.map (·.1) then [] else [.missingType]) ++
    (embeddedOffences members ++ kindOffences members)

mutual

/-- What is wrong with a value as a node, in reading order. -/
def offences : Json → List Mismatch
  | .object members => fieldOffences [] members ++ closingOffences members
  | j => [.wrongType j.head .node]

/-- What is wrong with the members of a node behind those before them. -/
def fieldOffences (before : List (String × Json)) : List (String × Json) → List Mismatch
  | [] => []
  | (key, j) :: later =>
    memberOffences before key j (childrenOffences j) ++ fieldOffences (before ++ [(key, j)]) later

/-- What is wrong with a value as the children of a node. -/
def childrenOffences : Json → List Mismatch
  | .null => []
  | .array items => itemOffences items
  | j => [.wrongType j.head .children]

/-- What is wrong with values as nodes beside each other. -/
def itemOffences : List Json → List Mismatch
  | [] => []
  | item :: rest => offences item ++ itemOffences rest

end

theorem itemOffences_eq (items : List Json) : itemOffences items = items.flatMap offences := by
  induction items with
  | nil => rfl
  | cons item rest ih => rw [itemOffences, List.flatMap_cons, ih]

theorem fieldOffences_eq (before members : List (String × Json)) :
    fieldOffences before members =
      inTurn (fun before key j => memberOffences before key j (childrenOffences j)) before
        members := by
  induction members generalizing before with
  | nil => rfl
  | cons member later ih =>
    obtain ⟨key, j⟩ := member
    rw [fieldOffences, inTurn, ih]

/-! ### The order of offences -/

theorem infix_itemOffences {items : List Json} {item : Json} (h : item ∈ items) :
    offences item <:+: itemOffences items := by
  obtain ⟨left, right, rfl⟩ := List.append_of_mem h
  rw [itemOffences_eq, List.flatMap_append, List.flatMap_cons, ← List.append_assoc]
  exact ⟨_, _, rfl⟩

/-- What is wrong with a node in the content comes, in one piece, before what the object around it
closes with. -/
theorem offences_object_eq_append {members : List (String × Json)} {items : List Json} {item : Json}
    (hitems : (Field.children.key, .array items) ∈ members) (hitem : item ∈ items) :
    ∃ earlier later, offences (.object members) =
      earlier ++ offences item ++ later ++ closingOffences members := by
  obtain ⟨before, hmember⟩ := infix_inTurn
    (fun before key j => memberOffences before key j (childrenOffences j)) hitems []
  have hchildren : itemOffences items <:+
      memberOffences before Field.children.key (.array items) (childrenOffences (.array items)) := by
    rw [memberOffences, Field.ofKey?_key]
    exact List.suffix_append _ _
  obtain ⟨earlier, later, heq⟩ :=
    ((infix_itemOffences hitem).trans hchildren.isInfix).trans hmember
  refine ⟨earlier, later, ?_⟩
  rw [offences, fieldOffences_eq, heq]

/-- The inner value stands where a node in the content of the outer one has to stand, at any depth; or
it is the outer one. -/
inductive Encloses : Json → Json → Prop where
  | refl (j : Json) : Encloses j j
  | content {members : List (String × Json)} {items : List Json} {item inner : Json}
      (children : (Field.children.key, .array items) ∈ members) (child : item ∈ items)
      (below : Encloses item inner) : Encloses (.object members) inner

theorem infix_offences {outer inner : Json} (h : Encloses outer inner) :
    offences inner <:+: offences outer := by
  induction h with
  | refl j => exact List.infix_rfl
  | content children child _ ih =>
    obtain ⟨earlier, later, heq⟩ := offences_object_eq_append children child
    rw [heq, List.append_assoc]
    exact ih.trans ⟨_, _, rfl⟩

/-! ### Values without embedded texts -/

theorem isEmbedded_of_mem_stringOffences (j : Json) :
    ∀ m ∈ stringOffences j, m.isEmbedded = false := by
  cases j <;> simp [stringOffences, Mismatch.isEmbedded]

theorem isEmbedded_of_mem_optionalStringOffences (j : Json) :
    ∀ m ∈ optionalStringOffences j, m.isEmbedded = false := by
  cases j <;> simp [optionalStringOffences, Mismatch.isEmbedded]

theorem isEmbedded_of_mem_propertiesOffences (j : Json) :
    ∀ m ∈ propertiesOffences j, m.isEmbedded = false := by
  cases j <;> simp +contextual [propertiesOffences, propertyOffences, Mismatch.isEmbedded]

theorem isEmbedded_of_mem_kindOffences (members : List (String × Json)) :
    ∀ m ∈ kindOffences members, m.isEmbedded = false := by
  unfold kindOffences
  split
  · split <;> simp [Mismatch.isEmbedded]
  · split <;> simp [Mismatch.isEmbedded]
  · simp

theorem isEmbedded_of_mem_memberOffences {children : List Mismatch}
    (hchildren : ∀ m ∈ children, m.isEmbedded = false) (before : List (String × Json)) (key : String)
    (j : Json) : ∀ m ∈ memberOffences before key j children, m.isEmbedded = false := by
  unfold memberOffences
  cases Field.ofKey? key with
  | none => simp
  | some field =>
    refine List.forall_mem_append.2 ⟨by split <;> simp [Mismatch.isEmbedded], ?_⟩
    cases field with
    | type => exact isEmbedded_of_mem_stringOffences j
    | tagName | value => exact isEmbedded_of_mem_optionalStringOffences j
    | properties => exact isEmbedded_of_mem_propertiesOffences j
    | children => exact hchildren

theorem isEmbedded_of_mem_closingOffences {members : List (String × Json)}
    (hplain : HavePlain members) : ∀ m ∈ closingOffences members, m.isEmbedded = false := by
  have hextra : HavePlain (extraMembers members) :=
    havePlain_iff.2 fun member hmember => havePlain_iff.1 hplain member (List.mem_filter.1 hmember).1
  rw [closingOffences, embeddedOffences, resolveMembers_of_plain _ hextra]
  refine List.forall_mem_append.2 ⟨by split <;> simp [Mismatch.isEmbedded], ?_⟩
  exact isEmbedded_of_mem_kindOffences members

mutual

/-- Where no object begins like an embedded text, nothing is wrong with one. -/
theorem isEmbedded_of_mem_offences : ∀ j : Json, j.Plain → ∀ m ∈ offences j, m.isEmbedded = false
  | .object members, hplain => by
    rw [Json.Plain] at hplain
    rw [offences]
    exact List.forall_mem_append.2 ⟨isEmbedded_of_mem_fieldOffences members [] hplain.2,
      isEmbedded_of_mem_closingOffences hplain.2⟩
  | .null, _ | .bool _, _ | .integer _, _ | .float _, _ | .string _, _ | .array _, _ =>
    List.forall_mem_singleton.2 rfl

theorem isEmbedded_of_mem_fieldOffences : ∀ (members before : List (String × Json)),
    HavePlain members → ∀ m ∈ fieldOffences before members, m.isEmbedded = false
  | [], _, _ => fun m hm => nomatch hm
  | (key, j) :: later, before, hplain => by
    rw [HavePlain] at hplain
    rw [fieldOffences]
    have hchildren := isEmbedded_of_mem_childrenOffences j hplain.1
    exact List.forall_mem_append.2 ⟨isEmbedded_of_mem_memberOffences hchildren before key j,
      isEmbedded_of_mem_fieldOffences later _ hplain.2⟩

theorem isEmbedded_of_mem_childrenOffences : ∀ j : Json, j.Plain →
    ∀ m ∈ childrenOffences j, m.isEmbedded = false
  | .array items, hplain => by
    rw [Json.Plain] at hplain
    rw [childrenOffences]
    exact isEmbedded_of_mem_itemOffences items hplain
  | .null, _ => fun m hm => nomatch hm
  | .bool _, _ | .integer _, _ | .float _, _ | .string _, _ | .object _, _ =>
    List.forall_mem_singleton.2 rfl

theorem isEmbedded_of_mem_itemOffences : ∀ items : List Json, ArePlain items →
    ∀ m ∈ itemOffences items, m.isEmbedded = false
  | [], _ => fun m hm => nomatch hm
  | item :: rest, hplain => by
    rw [ArePlain] at hplain
    rw [itemOffences]
    exact List.forall_mem_append.2 ⟨isEmbedded_of_mem_offences item hplain.1,
      isEmbedded_of_mem_itemOffences rest hplain.2⟩

end

end Node

/-! ### Trees -/

namespace Root

/-- What is wrong with a node as the outermost one: its kind, unless that is the one of roots. -/
def kindOffences (j : Json) : List Mismatch :=
  match Node.kindIn? j with
  | none => []
  | some kind => if kind = "root" then [] else [.fault (.notRoot kind)]

/-- What is wrong with a value as a tree, in reading order. -/
def offences (j : Json) : List Mismatch := Node.offences j ++ kindOffences j

/-- At any depth, what is wrong with a node in the content comes before what the object around it
closes with. -/
theorem offences_eq_append {j : Json} {members : List (String × Json)}
    (h : Node.Encloses j (.object members)) {items : List Json} {item : Json}
    (hitems : (Node.Field.children.key, .array items) ∈ members) (hitem : item ∈ items) :
    ∃ earlier between later, offences j =
      earlier ++ Node.offences item ++ between ++ Node.closingOffences members ++ later := by
  obtain ⟨before, behind, hj⟩ := Node.infix_offences h
  obtain ⟨earlier, between, hobject⟩ := Node.offences_object_eq_append hitems hitem
  refine ⟨before ++ earlier, between, behind ++ kindOffences j, ?_⟩
  rw [offences, ← hj, hobject]
  simp only [List.append_assoc]

theorem isEmbedded_of_mem_offences {j : Json} (hplain : j.Plain) :
    ∀ m ∈ offences j, m.isEmbedded = false := by
  refine List.forall_mem_append.2 ⟨Node.isEmbedded_of_mem_offences j hplain, ?_⟩
  unfold kindOffences
  split
  · simp
  · split <;> simp [Mismatch.isEmbedded]

end Root

end DocTree
