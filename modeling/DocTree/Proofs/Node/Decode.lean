import DocTree.Node.Reader
import DocTree.Proofs.Json.RoundTrip

/-!
# Trees by the values of their texts

A tree is read in one pass, but it is a function of the value that the text says (`Node.ofJson?`):
`Node.reading_decodes`.  So what is known of texts as texts of values, such as that a written value is
read back, holds of texts as texts of trees, and which trees there are in texts is a question about
values.
-/

namespace DocTree

/-! ### Fields of nodes as values -/

/-- The string that a value is. -/
def Json.string? : Json → Option String
  | .string s => some s
  | _ => none

/-- The string that a value is, or none for null. -/
def Json.optionalString? : Json → Option (Option String)
  | .null => some none
  | .string s => some (some s)
  | _ => none

/-- Adds a property to a map. -/
def Properties.add? (properties : Properties) (name : String) (value : Json) : Option Properties :=
  (PropertyValue.ofJson? value).map (properties.insert name)

/-- The property map that a value is, or none for null. -/
def Json.optionalProperties? : Json → Option (Option Properties)
  | .null => some none
  | .object members => (Json.addAll Properties.add? .empty members).map some
  | _ => none

namespace Node

/-- Adds a member to the fields of a node, given what it says as children. -/
def Fields.add? (fields : Fields) (key : String) (value : Json)
    (children : Option (Option (List Node))) : Option Fields :=
  match Field.ofKey? key with
  | .none => some { fields with extra := fields.extra ++ [(key, value)] }
  | some field =>
    if fields.has field then .none
    else match field with
      | .type => value.string?.map fun s => { fields with type := some s }
      | .tagName => value.optionalString?.map fun s => { fields with tagName := some s }
      | .value => value.optionalString?.map fun s => { fields with value := some s }
      | .properties => value.optionalProperties?.map fun p => { fields with properties := some p }
      | .children => children.map fun cs => { fields with children := some cs }

mutual

/-- The node that a value says, if it says one. -/
def ofJson? : Json → Option Node
  | .object members => (fieldsOf? .none members).bind fun fields => fields.toNode.toOption
  | _ => none

/-- The fields with the members of an object added to them. -/
def fieldsOf? (fields : Fields) : List (String × Json) → Option Fields
  | [] => some fields
  | (key, value) :: rest => (fields.add? key value (childrenOf? value)).bind (fieldsOf? · rest)

/-- The children that a value says, or none for null. -/
def childrenOf? : Json → Option (Option (List Node))
  | .null => some none
  | .array items => (nodesOf? items).map some
  | _ => none

/-- The nodes that values say. -/
def nodesOf? : List Json → Option (List Node)
  | [] => some []
  | item :: rest => (ofJson? item).bind fun node => (nodesOf? rest).map (node :: ·)

end

theorem nodesOf?_eq (items : List Json) : nodesOf? items = items.mapM ofJson? := by
  induction items with
  | nil => rfl
  | cons item rest ih =>
    rw [nodesOf?, List.mapM_cons, ih]
    cases ofJson? item with
    | none => rfl
    | some node => cases rest.mapM ofJson? <;> rfl

theorem fieldsOf?_eq (fields : Fields) (members : List (String × Json)) :
    fieldsOf? fields members =
      Json.addAll (fun fields key value => fields.add? key value (childrenOf? value)) fields
        members := by
  induction members generalizing fields with
  | nil => rfl
  | cons member rest ih =>
    obtain ⟨key, value⟩ := member
    rw [fieldsOf?, Json.addAll, List.foldlM_cons]
    exact congrArg (Option.bind _) (funext ih)

end Node

open Reading Json

variable {levels : Nat}

/-! ### Readings of fields -/

theorem stringField_decodes : Decodes (value levels) Node.stringField Json.string? := by
  refine decodes_of_head (fun j hj text s rest => ?_) (fun text s rest => ?_) fun text s rest => ?_
  · cases j with
    | array | object => cases hj
    | string => simp [Json.head, string?, pure_eq_ok_iff]
    | _ => exact iff_of_false (by rintro ⟨⟩) (by rintro ⟨⟨⟩, -⟩)
  all_goals exact iff_of_false (by rintro ⟨⟩) (by simp [string?])

theorem optionalString_decodes :
    Decodes (value levels) Node.optionalString Json.optionalString? := by
  refine decodes_of_head (fun j hj text s rest => ?_) (fun text s rest => ?_) fun text s rest => ?_
  · cases j with
    | array | object => cases hj
    | null | string => simp [Json.head, optionalString?, pure_eq_ok_iff]
    | _ => exact iff_of_false (by rintro ⟨⟩) (by rintro ⟨⟨⟩, -⟩)
  all_goals exact iff_of_false (by rintro ⟨⟩) (by simp [optionalString?])

theorem propertyValue_decodes :
    Decodes (value levels) (PropertyValue.reading levels) PropertyValue.ofJson? := by
  intro text v rest
  constructor
  · intro h
    obtain ⟨j, mid, hj, hv⟩ := bind_eq_ok_iff.1 h
    unfold PropertyValue.check at hv
    cases hc : PropertyValue.ofJson? j with
    | none => rw [hc] at hv; cases hv
    | some v' =>
      rw [hc] at hv
      obtain ⟨rfl, rfl⟩ := pure_eq_ok_iff.1 hv
      exact ⟨j, hj, hc⟩
  · rintro ⟨j, hj, hv⟩
    refine bind_eq_ok_iff.2 ⟨j, rest, hj, ?_⟩
    rw [PropertyValue.check, hv]
    rfl

theorem property_decodes : MemberDecodes (value levels)
    (fun p name => .ok do return Properties.insert p name (← PropertyValue.reading levels))
    Properties.add? :=
  memberDecodes_of_decodes fun p name => propertyValue_decodes.map (p.insert name)

theorem propertiesRest_eq_ok_iff {text rest : List Char} {p : Properties} :
    Properties.rest levels text = .ok (p, rest) ↔
      ∃ ms, members (collect (@value Mismatch levels)) [] text = .ok (ms, rest) ∧
        addAll Properties.add? .empty ms = some p :=
  members_decodes property_decodes text rest .empty p

theorem optionalProperties_decodes :
    Decodes (value levels) (Node.optionalProperties levels) Json.optionalProperties? := by
  refine decodes_of_head (fun j hj text p rest => ?_) (fun text p rest => ?_) fun text p rest => ?_
  · cases j with
    | array | object => cases hj
    | null => simp [Json.head, optionalProperties?, pure_eq_ok_iff]
    | _ => exact iff_of_false (by rintro ⟨⟩) (by rintro ⟨⟨⟩, -⟩)
  · exact iff_of_false (by rintro ⟨⟩) (by simp [optionalProperties?])
  · cases levels with
    | zero => exact iff_of_false (by rintro ⟨⟩) (by simp)
    | succ levels =>
      constructor
      · intro h
        obtain ⟨q, mid, hq, hp⟩ := bind_eq_ok_iff.1 h
        obtain ⟨rfl, rfl⟩ := pure_eq_ok_iff.1 hp
        obtain ⟨ms, hms, hadds⟩ := propertiesRest_eq_ok_iff.1 hq
        exact ⟨levels, ms, rfl, hms, congrArg (Option.map some) hadds⟩
      · rintro ⟨_, ms, ⟨⟩, hms, hp⟩
        obtain ⟨q, hadds, rfl⟩ := Option.map_eq_some_iff.1 hp
        exact bind_eq_ok_iff.2 ⟨q, rest, propertiesRest_eq_ok_iff.2 ⟨ms, hms, hadds⟩, rfl⟩

/-! ### Readings of nodes -/

/-- Of the children there is a node for every value in their array. -/
theorem optionalChildren_decodes {node : Reading Mismatch Node}
    (h : Decodes (value levels) node Node.ofJson?) :
    Decodes (value (levels + 1)) (Node.optionalChildren (some node)) Node.childrenOf? := by
  refine decodes_of_head (fun j hj text cs rest => ?_) (fun text cs rest => ?_)
    fun text cs rest => ?_
  · cases j with
    | array | object => cases hj
    | null => simp [Json.head, Node.childrenOf?, pure_eq_ok_iff]
    | _ => exact iff_of_false (by rintro ⟨⟩) (by rintro ⟨⟨⟩, -⟩)
  · simp only [Node.childrenOf?, Node.nodesOf?_eq]
    constructor
    · intro hrun
      obtain ⟨nodes, mid, hnodes, hcs⟩ := bind_eq_ok_iff.1 hrun
      obtain ⟨rfl, rfl⟩ := pure_eq_ok_iff.1 hcs
      obtain ⟨js, hjs, hmap⟩ := (items_decodes h _ _ _).1 hnodes
      exact ⟨levels, js, rfl, hjs, congrArg (Option.map some) hmap⟩
    · rintro ⟨_, js, ⟨⟩, hjs, hcs⟩
      obtain ⟨nodes, hmap, rfl⟩ := Option.map_eq_some_iff.1 hcs
      exact bind_eq_ok_iff.2 ⟨nodes, rest, (items_decodes h _ _ _).2 ⟨js, hjs, hmap⟩, rfl⟩
  · exact iff_of_false (by rintro ⟨⟩) (by simp [Node.childrenOf?])

/-- Where no container may be opened, no children are read. -/
theorem noChildren_decodes :
    Decodes (value 0) (Node.optionalChildren none) Node.childrenOf? := by
  refine decodes_of_head (fun j hj text cs rest => ?_) (fun text cs rest => ?_)
    fun text cs rest => ?_
  · cases j with
    | array | object => cases hj
    | null => simp [Json.head, Node.childrenOf?, pure_eq_ok_iff]
    | _ => exact iff_of_false (by rintro ⟨⟩) (by rintro ⟨⟨⟩, -⟩)
  all_goals exact iff_of_false (by rintro ⟨⟩) (by simp)

theorem readField_decodes {children : Reading Mismatch (Option (List Node))}
    (h : Decodes (value levels) children Node.childrenOf?) :
    MemberDecodes (value levels) (Node.readField levels children)
      fun fields key j => fields.add? key j (Node.childrenOf? j) := by
  intro fields key text fields' rest
  change (∃ r, Node.readField levels children fields key = .ok r ∧ r text = .ok (fields', rest)) ↔
    ∃ j, value levels text = .ok (j, rest) ∧
      fields.add? key j (Node.childrenOf? j) = some fields'
  unfold Node.readField Node.Fields.add?
  cases Node.Field.ofKey? key with
  | none =>
    have hd := (decodes_self (@value Mismatch levels)).map fun j =>
      { fields with extra := fields.extra ++ [(key, j)] }
    simpa using hd text fields' rest
  | some field =>
    by_cases hhas : fields.has field = true
    · simp [hhas]
    · simp only [hhas]
      cases field with
      | type =>
        have hd := (@stringField_decodes levels).map fun s =>
          { fields with type := some s }
        simpa using hd text fields' rest
      | tagName =>
        have hd := (@optionalString_decodes levels).map fun s =>
          { fields with tagName := some s }
        simpa using hd text fields' rest
      | value =>
        have hd := (@optionalString_decodes levels).map fun s =>
          { fields with value := some s }
        simpa using hd text fields' rest
      | properties =>
        have hd := (@optionalProperties_decodes levels).map fun p =>
          { fields with properties := some p }
        simpa using hd text fields' rest
      | children =>
        have hd := h.map fun cs => { fields with children := some cs }
        simpa using hd text fields' rest

/-- What the rest of a node's object gives, by its members. -/
theorem nodeRest_eq_ok_iff {children : Reading Mismatch (Option (List Node))}
    (h : Decodes (value levels) children Node.childrenOf?) {text rest : List Char} {node : Node} :
    Node.rest levels children text = .ok (node, rest) ↔
      ∃ ms, members (collect (@value Mismatch levels)) [] text = .ok (ms, rest) ∧
        Node.ofJson? (.object ms) = some node := by
  have hfields := members_decodes (readField_decodes h) text
  simp only [← Node.fieldsOf?_eq] at hfields
  simp only [Node.ofJson?, Option.bind_eq_some_iff]
  constructor
  · intro hrun
    obtain ⟨fields, mid, hread, hnode⟩ := bind_eq_ok_iff.1 hrun
    obtain ⟨ms, hms, hadds⟩ := (hfields _ _ _).1 hread
    cases hn : fields.toNode with
    | error reason =>
      rw [hn] at hnode
      cases hnode
    | ok node' =>
      rw [hn] at hnode
      obtain ⟨rfl, rfl⟩ := pure_eq_ok_iff.1 hnode
      exact ⟨ms, hms, fields, hadds, by rw [hn]; rfl⟩
  · rintro ⟨ms, hms, fields, hadds, hnode⟩
    refine bind_eq_ok_iff.2 ⟨fields, rest, (hfields _ _ _).2 ⟨ms, hms, hadds⟩, ?_⟩
    cases hn : fields.toNode with
    | error reason =>
      rw [hn] at hnode
      cases hnode
    | ok node' =>
      rw [hn] at hnode
      cases hnode
      rfl

theorem nodeAround_decodes {children : Reading Mismatch (Option (List Node))}
    (h : Decodes (value levels) children Node.childrenOf?) :
    Decodes (value (levels + 1)) (Node.nodeAround (some (Node.rest levels children)))
      Node.ofJson? := by
  refine decodes_of_head (fun j hj text node rest => ?_) (fun text node rest => ?_)
    fun text node rest => ?_
  · cases j with
    | array | object => cases hj
    | _ => exact iff_of_false (by rintro ⟨⟩) (by rintro ⟨⟨⟩, -⟩)
  · exact iff_of_false (by rintro ⟨⟩) (by simp [Node.ofJson?])
  · refine (nodeRest_eq_ok_iff h).trans ⟨fun ⟨ms, hms⟩ => ⟨levels, ms, rfl, hms⟩, ?_⟩
    rintro ⟨_, ms, ⟨⟩, hms⟩
    exact ⟨ms, hms⟩

/-- **What is read of a text as a node is the node that the value in it says**, if it says one. -/
theorem Node.reading_decodes : ∀ levels : Nat,
    Decodes (value levels) (Node.reading levels) Node.ofJson?
  | 0 => by
    refine decodes_of_head (fun j hj text node rest => ?_) (fun text node rest => ?_)
      fun text node rest => ?_
    · cases j with
      | array | object => cases hj
      | _ => exact iff_of_false (by rintro ⟨⟩) (by rintro ⟨⟨⟩, -⟩)
    all_goals exact iff_of_false (by rintro ⟨⟩) (by simp)
  | 1 => nodeAround_decodes noChildren_decodes
  | levels + 2 => nodeAround_decodes (optionalChildren_decodes (Node.reading_decodes levels))

/-! ### Whole texts -/

/-- The tree that a value says, if it says one. -/
def Root.ofJson? (j : Json) : Option Root :=
  match Node.ofJson? j with
  | some (.root children extra) => some ⟨children, extra⟩
  | _ => none

theorem Root.ofJson?_eq_some_iff {j : Json} {r : Root} :
    Root.ofJson? j = some r ↔ Node.ofJson? j = some r.toNode := by
  unfold Root.ofJson?
  constructor
  · intro h
    split at h
    next children extra hj => cases h; exact hj
    next => cases h
  · intro h
    rw [h]
    rfl

theorem Root.reading_decodes : Decodes (value maxNesting) Root.reading Root.ofJson? := by
  intro text r rest
  simp only [Root.ofJson?_eq_some_iff]
  rw [← Node.reading_decodes maxNesting text r.toNode rest]
  constructor
  · intro hrun
    obtain ⟨node, mid, hnode, hrest⟩ := bind_eq_ok_iff.1 hrun
    cases node with
    | root children extra =>
      obtain ⟨rfl, rfl⟩ := pure_eq_ok_iff.1 hrest
      exact hnode
    | _ => cases hrest
  · exact fun hnode => bind_eq_ok_iff.2 ⟨_, rest, hnode, rfl⟩

/-! ### Whole texts -/

/-- What is read of a text is the content of the value that the text says. -/
theorem readAll_decodes {α : Type} {reading : Reading Mismatch α} {content : Json → Option α}
    (h : Decodes (value levels) reading content) {text : String} {a : α} :
    readAll reading text = .ok a ↔
      ∃ j, readAll (@value Mismatch levels) text = .ok j ∧ content j = some a := by
  simp only [readAll_eq_ok_iff, h _ _ _]
  constructor
  · rintro ⟨rest, ⟨j, hj, ha⟩, hrest⟩
    exact ⟨j, ⟨rest, hj, hrest⟩, ha⟩
  · rintro ⟨j, ⟨rest, hj, hrest⟩, ha⟩
    exact ⟨rest, ⟨j, hj, ha⟩, hrest⟩

/-- A text is the text of a node if it is the text of a value that says the node. -/
theorem Node.parse_eq_ok_iff {text : String} {node : Node} :
    Node.parse text = .ok node ↔
      ∃ j, readAll (@value Mismatch maxNesting) text = .ok j ∧ Node.ofJson? j = some node :=
  readAll_decodes (Node.reading_decodes maxNesting)

theorem Root.parse_eq_ok_iff_readAll {text : String} {r : Root} :
    Root.parse text = .ok r ↔ readAll Root.reading text = .ok r :=
  mapError_eq_ok_iff

/-- A text is the text of a tree if it is the text of a value that says the tree. -/
theorem Root.parse_eq_ok_iff {text : String} {r : Root} :
    Root.parse text = .ok r ↔
      ∃ j, readAll (@value Mismatch maxNesting) text = .ok j ∧ Root.ofJson? j = some r :=
  Root.parse_eq_ok_iff_readAll.trans (readAll_decodes Root.reading_decodes)

end DocTree
