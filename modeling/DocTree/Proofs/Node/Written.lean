import DocTree.Proofs.Json.DistinctKeys
import DocTree.Proofs.Node.Grammar

/-!
# The written form of nodes

Every node is written in the same way: the fields of its kind, with the written form of its content in
an array, and behind them its extra fields (`Node.exists_of_toJson`).  What holds of all nodes for this
reason is shown by an induction over the content (`Node.content_induction`).
-/

namespace DocTree

open Json

namespace Node

/-- The extra fields of a node. -/
def extra : Node → Extra
  | root _ extra => extra
  | element _ _ _ extra => extra
  | text _ extra => extra
  | other _ _ _ extra => extra

/-- The nodes below a node. -/
def content : Node → List Node
  | root children _ => children
  | element _ _ children _ => children
  | text _ _ => []
  | other _ _ children _ => children.getD []

/-- The property map of a node, if it is an element with one. -/
def properties? : Node → Option Properties
  | element _ properties _ _ => properties
  | _ => none

/-- The fields that a node is written with, given the written form of its content. -/
def ownMembers : Node → List Json → List (String × Json)
  | root .., items => [("type", .string "root"), ("children", .array items)]
  | element tag properties .., items =>
    ("type", .string "element") :: ("tagName", .string tag) :: propertiesMember properties ++
      [("children", .array items)]
  | text value _, _ => [("type", .string "text"), ("value", .string value)]
  | other kind value none _, _ => ("type", .string kind) :: valueMember value
  | other kind value (some _) _, items =>
    ("type", .string kind) :: ("children", .array items) :: valueMember value

/-! ### Content -/

theorem sizeOf_lt_of_mem_content {node child : Node} (h : child ∈ node.content) :
    sizeOf child < sizeOf node := by
  cases node with
  | root children extra =>
    have hlt := List.sizeOf_lt_of_mem h
    simp only [content, root.sizeOf_spec] at hlt ⊢
    omega
  | element tag properties children extra =>
    have hlt := List.sizeOf_lt_of_mem h
    simp only [content, element.sizeOf_spec] at hlt ⊢
    omega
  | text value extra => cases h
  | other kind value children extra =>
    cases children with
    | none => cases h
    | some children =>
      have hlt := List.sizeOf_lt_of_mem h
      simp only [content, Option.getD_some, other.sizeOf_spec, Option.some.sizeOf_spec] at hlt ⊢
      omega

/-- What holds of a node if it holds of the nodes below it holds of all nodes. -/
theorem content_induction {P : Node → Prop}
    (step : ∀ node : Node, (∀ child ∈ node.content, P child) → P node) (node : Node) : P node :=
  step node fun child _ => content_induction step child
termination_by sizeOf node
decreasing_by exact sizeOf_lt_of_mem_content ‹_›

/-! ### Written nodes -/

/-- A written node is the object of its own fields and its extra fields. -/
theorem exists_of_toJson {node : Node} {j : Json} (h : node.toJson = .ok j) :
    ∃ items, toJsonAll node.content = .ok items ∧
      j = .object (node.ownMembers items ++ node.extra.members) := by
  cases node with
  | root children extra =>
    rw [toJson] at h
    obtain ⟨items, hitems, h⟩ := exists_of_bind_eq_ok h
    cases h
    exact ⟨items, hitems, rfl⟩
  | element tag properties children extra =>
    rw [toJson] at h
    split at h
    · cases h
    · obtain ⟨items, hitems, h⟩ := exists_of_bind_eq_ok h
      cases h
      refine ⟨items, hitems, ?_⟩
      simp [ownMembers, Node.extra]
  | text value extra =>
    rw [toJson] at h
    cases h
    exact ⟨[], rfl, rfl⟩
  | other kind value children extra =>
    cases children with
    | none =>
      rw [toJson] at h
      cases h
      exact ⟨[], rfl, rfl⟩
    | some children =>
      rw [toJson] at h
      obtain ⟨items, hitems, h⟩ := exists_of_bind_eq_ok h
      cases h
      exact ⟨items, hitems, rfl⟩

/-- An element has a tag, and the kind of another node is not that of an interpreted one. -/
def Named : Node → Prop
  | element tag .. => tag ≠ ""
  | other kind .. => kind ∉ interpretedKinds
  | _ => True

/-- A node with a name is written if its content is. -/
theorem toJson_of_content {node : Node} (h : node.Named) {items : List Json}
    (hitems : toJsonAll node.content = .ok items) :
    node.toJson = .ok (.object (node.ownMembers items ++ node.extra.members)) := by
  cases node with
  | root children extra =>
    rw [toJson, show toJsonAll children = .ok items from hitems]
    rfl
  | element tag properties children extra =>
    rw [toJson, if_neg h, show toJsonAll children = .ok items from hitems]
    simp [ownMembers, Node.extra, bind, Except.bind, pure, Except.pure]
  | text value extra => rfl
  | other kind value children extra =>
    cases children with
    | none => rfl
    | some children =>
      rw [toJson, show toJsonAll children = .ok items from hitems]
      rfl

theorem Faithful.of_mem_content {node child : Node} (h : node.Faithful)
    (hchild : child ∈ node.content) : child.Faithful := by
  cases node with
  | root => exact allFaithful_iff.1 h.1 child hchild
  | element => exact allFaithful_iff.1 h.2.2.1 child hchild
  | text => cases hchild
  | other kind value children extra =>
    cases children with
    | none => cases hchild
    | some => exact allFaithful_iff.1 h.2.1 child hchild

theorem Faithful.unreserved {node : Node} (h : node.Faithful) : node.extra.Unreserved := by
  cases node with
  | root => exact h.2
  | element => exact h.2.2.2
  | text => exact h
  | other kind value children extra =>
    cases children with
    | none => exact h.2
    | some => exact h.2.2

theorem exists_toJsonAll_of_forall {nodes : List Node} (h : ∀ node ∈ nodes, ∃ j, node.toJson = .ok j) :
    ∃ items, toJsonAll nodes = .ok items := by
  induction nodes with
  | nil => exact ⟨[], rfl⟩
  | cons node rest ih =>
    obtain ⟨⟨j, hj⟩, hrest⟩ := List.forall_mem_cons.1 h
    obtain ⟨items, hitems⟩ := ih hrest
    refine ⟨j :: items, ?_⟩
    rw [toJsonAll, hj, hitems]
    rfl

/-- What is written of nodes is written of one of them. -/
theorem exists_of_mem_toJsonAll {nodes : List Node} {items : List Json}
    (h : toJsonAll nodes = .ok items) {item : Json} (hitem : item ∈ items) :
    ∃ node ∈ nodes, node.toJson = .ok item := by
  induction nodes generalizing items with
  | nil =>
    cases h
    cases hitem
  | cons node rest ih =>
    obtain ⟨j, others, rfl, hj, hothers⟩ := exists_of_toJsonAll_cons h
    rcases List.mem_cons.1 hitem with rfl | hitem
    · exact ⟨node, List.mem_cons_self, hj⟩
    · obtain ⟨other, hother, hwritten⟩ := ih hothers hitem
      exact ⟨other, List.mem_cons_of_mem _ hother, hwritten⟩

theorem exists_mem_of_toJsonAll {nodes : List Node} {items : List Json}
    (h : toJsonAll nodes = .ok items) {node : Node} (hnode : node ∈ nodes) :
    ∃ item ∈ items, node.toJson = .ok item := by
  induction nodes generalizing items with
  | nil => cases hnode
  | cons first rest ih =>
    obtain ⟨j, others, rfl, hj, hothers⟩ := exists_of_toJsonAll_cons h
    rcases List.mem_cons.1 hnode with rfl | hnode
    · exact ⟨j, List.mem_cons_self, hj⟩
    · obtain ⟨item, hitem, hwritten⟩ := ih hothers hnode
      exact ⟨item, List.mem_cons_of_mem _ hitem, hwritten⟩

section Members

variable (node : Node) (items : List Json)

/-- The fields that a node is written with. -/
def ownFields : Node → List Field
  | root .. => [.type, .children]
  | element _ none .. => [.type, .tagName, .children]
  | element _ (some _) .. => [.type, .tagName, .properties, .children]
  | text .. => [.type, .value]
  | other _ none none _ => [.type]
  | other _ (some _) none _ => [.type, .value]
  | other _ none (some _) _ => [.type, .children]
  | other _ (some _) (some _) _ => [.type, .children, .value]

theorem keys_ownMembers : (node.ownMembers items).map (·.1) = node.ownFields.map Field.key := by
  fun_cases ownFields node <;> rfl

variable {node items} in
theorem exists_of_mem_ownMembers {m : String × Json} (h : m ∈ node.ownMembers items) :
    ∃ field ∈ node.ownFields, m.1 = field.key := by
  have hkey := List.mem_map_of_mem (f := (·.1)) h
  rw [keys_ownMembers] at hkey
  obtain ⟨field, hfield, heq⟩ := List.mem_map.1 hkey
  exact ⟨field, hfield, heq.symm⟩

theorem nodup_ownFields : node.ownFields.Nodup := by
  fun_cases ownFields node <;> decide

end Members

/-- No key of a written node comes twice. -/
theorem nodup_keys_written {node : Node} (h : node.extra.Unreserved) (items : List Json) :
    ((node.ownMembers items ++ node.extra.members).map (·.1)).Nodup := by
  have hextra := Members.nodup_of_increasing (isCanonical_object.1 node.extra.canonical).1
  rw [List.map_append, keys_ownMembers, List.nodup_append]
  have hown : (node.ownFields.map Field.key).Nodup :=
    List.Pairwise.map _ (fun _ _ hne heq => hne (Field.key_inj.1 heq)) node.nodup_ownFields
  refine ⟨hown, hextra, ?_⟩
  rintro key hkey other hother rfl
  obtain ⟨field, -, rfl⟩ := List.mem_map.1 hkey
  obtain ⟨m, hm, hkey⟩ := List.mem_map.1 hother
  exact h m hm field hkey

/-! ### Fields of written nodes -/

section Fields

variable {node : Node} {items : List Json} {field : Field} {j : Json}

/-- A field that is written is one of the node itself. -/
theorem mem_written_iff (h : node.extra.Unreserved) :
    (field.key, j) ∈ node.ownMembers items ++ node.extra.members ↔
      (field.key, j) ∈ node.ownMembers items := by
  rw [List.mem_append]
  exact or_iff_left fun hm => h _ hm field rfl

theorem type_mem_ownMembers : (Field.type.key, .string node.kind) ∈ node.ownMembers items := by
  fun_cases ownMembers node items <;> exact List.mem_cons_self

theorem mem_valueMember_iff {value : Option String} {m : String × Json} :
    m ∈ valueMember value ↔ ∃ s ∈ value, m = (Field.value.key, .string s) := by
  cases value <;> simp [valueMember, Field.key]

theorem mem_propertiesMember_iff {properties : Option Properties} {m : String × Json} :
    m ∈ propertiesMember properties ↔ ∃ p ∈ properties, m = (Field.properties.key, p.toJson) := by
  cases properties <;> simp [propertiesMember, Field.key]

theorem string_of_mem_ownMembers (hfield : field = .tagName ∨ field = .value)
    (h : (field.key, j) ∈ node.ownMembers items) : ∃ s, j = .string s := by
  revert h
  rcases hfield with rfl | rfl <;> fun_cases ownMembers node items <;>
    simp +contextual [mem_valueMember_iff, mem_propertiesMember_iff, Field.key]

theorem properties_mem_ownMembers_iff :
    (Field.properties.key, j) ∈ node.ownMembers items ↔ ∃ p ∈ node.properties?, j = p.toJson := by
  fun_cases ownMembers node items <;>
    simp [mem_valueMember_iff, mem_propertiesMember_iff, Field.key, properties?]

theorem children_of_mem_ownMembers (h : (Field.children.key, j) ∈ node.ownMembers items) :
    j = .array items := by
  revert h
  fun_cases ownMembers node items <;>
    simp [mem_valueMember_iff, mem_propertiesMember_iff, Field.key]

theorem children_mem_ownMembers {child : Node} (h : child ∈ node.content) :
    (Field.children.key, .array items) ∈ node.ownMembers items := by
  revert h
  fun_cases ownMembers node items <;> simp [content, Field.key]

end Fields

end Node

theorem Root.render_of_toJson {r : Root} {out : Json} (h : r.toNode.toJson = .ok out) :
    r.render = .ok out.render := by
  rw [render, Node.render, h]
  rfl

end DocTree
