import DocTree.Property.Map

/-!
# Document trees

A node is a root, an element, a text, or of another kind that the model does not interpret.  The
kinds form a closed set, and what is not interpreted is kept: every node carries its extra fields,
and a node of another kind its kind, value and children as well, so that it can be written again.

Absent and empty differ where a written tree tells them apart: for the property map of an element,
and for the children of a node of another kind.
-/

namespace DocTree

/-- The fields of a node that have no meaning here, sorted by key at every level. -/
structure Extra where
  members : List (String × Json)
  canonical : (Json.object members).IsCanonical

namespace Extra

/-- No extra fields. -/
def empty : Extra := ⟨[], Json.isCanonical_canonical (.object [])⟩

instance : Inhabited Extra := ⟨empty⟩

/-- The fields as they are read: of equal keys the last one counts, at every level. -/
def ofMembers (members : List (String × Json)) : Extra :=
  ⟨Json.canonicalMembers members, by
    simpa [Json.canonical] using Json.isCanonical_canonical (.object members)⟩

/-- Equality of extra fields. -/
def same (x y : Extra) : Bool := Json.sameMembers x.members y.members

end Extra

/-- A node of a document tree. -/
inductive Node where
  /-- The top of a tree; it may also stand inside one. -/
  | root (children : List Node) (extra : Extra)
  | element (tag : String) (properties : Option Properties) (children : List Node) (extra : Extra)
  | text (value : String) (extra : Extra)
  /-- A node of a kind that is not interpreted. -/
  | other (kind : String) (value : Option String) (children : Option (List Node)) (extra : Extra)

instance : Inhabited Node := ⟨.root [] .empty⟩

/-- The top of a tree. -/
structure Root where
  /-- The content, in document order. -/
  children : List Node
  extra : Extra
  deriving Inhabited

/-- An element. -/
structure Element where
  /-- The name; an element with an empty name cannot be written. -/
  tag : String
  /-- The properties; an element without a map differs from one with an empty map. -/
  properties : Option Properties
  /-- The content, in document order. -/
  children : List Node
  extra : Extra
  deriving Inhabited

/-- A text. -/
structure TextNode where
  value : String
  extra : Extra

/-- A node of a kind that is not interpreted. -/
structure OtherNode where
  kind : String
  value : Option String
  /-- The content, if the node has any; none differs from empty content. -/
  children : Option (List Node)
  extra : Extra

/-- What is wrong with a node that is well formed otherwise. -/
inductive NodeFault where
  | missingField (field kind : String)
  | emptyTag
  | notRoot (kind : String)
  deriving DecidableEq

/-- The text of the fault. -/
def NodeFault.message : NodeFault → String
  | missingField field kind => "Missing field `" ++ field ++ "` on " ++ kind ++ " node"
  | emptyTag => "Element node has an empty tagName"
  | notRoot kind => "Expected a root node, found `" ++ kind ++ "`"

namespace Node

/-- The name of the node's kind. -/
def kind : Node → String
  | root .. => "root"
  | element .. => "element"
  | text .. => "text"
  | other kind .. => kind

/-- The element, if the node is one. -/
def element? : Node → Option Element
  | element tag properties children extra => some ⟨tag, properties, children, extra⟩
  | _ => none

/-- The text, if the node is one. -/
def text? : Node → Option String
  | text value _ => some value
  | _ => none

/-- Whether the node is an element with the given tag. -/
def hasTag (tag : String) : Node → Bool
  | element t .. => t == tag
  | _ => false

theorem hasTag_iff {tag : String} {node : Node} :
    node.hasTag tag = true ↔ ∃ properties children extra,
      node = element tag properties children extra := by
  cases node <;> simp [hasTag]

/-- A text without extra fields. -/
def ofText (value : String) : Node := text value .empty

end Node

namespace OtherNode

/-- A node of another kind without value, children and extra fields. -/
def ofKind (kind : String) : OtherNode := ⟨kind, none, none, .empty⟩

/-- A node of another kind as a node. -/
def toNode (o : OtherNode) : Node := .other o.kind o.value o.children o.extra

end OtherNode

namespace Root

/-- The root with the given content. -/
def ofChildren (children : List Node) : Root := ⟨children, .empty⟩

/-- The root as a node. -/
def toNode (r : Root) : Node := .root r.children r.extra

end Root

namespace Element

/-- The element as a node. -/
def toNode (e : Element) : Node := .element e.tag e.properties e.children e.extra

/-- The element with the given tag, without a property map and without content. -/
def ofTag (tag : String) (_nonempty : tag ≠ "") : Element := ⟨tag, none, [], .empty⟩

/-- The element with the given tag, unless that is empty. -/
def ofTag? (tag : String) : Except NodeFault Element :=
  if h : tag = "" then .error .emptyTag else .ok (ofTag tag h)

/-- The value of a property. -/
def property? (e : Element) (name : String) : Option PropertyValue :=
  e.properties.bind (·.get? name)

/-- The property map, empty if there is none. -/
def propertyMap (e : Element) : Properties := e.properties.getD .empty

/-- The element with a property map, an empty one if it had none. -/
def ensureProperties (e : Element) : Element := { e with properties := some e.propertyMap }

/-- Sets a property; an element without a property map gets one. -/
def insertProperty (e : Element) (name : String) (value : PropertyValue) : Element :=
  { e with properties := some (e.propertyMap.insert name value) }

/-- Adds content behind what there is. -/
def append (e : Element) (children : List Node) : Element :=
  { e with children := e.children ++ children }

end Element

/-! ### Equality -/

namespace Node

/-- Equality of property maps that may be absent. -/
def sameProperties : Option Properties → Option Properties → Bool
  | none, none => true
  | some p, some q => p.same q
  | _, _ => false

mutual

/-- Equality of nodes: content in order, properties in any order, numbers by their value. -/
def same : Node → Node → Bool
  | root cs x, root ds y => sameAll cs ds && x.same y
  | element t p cs x, element u q ds y =>
    t == u && sameProperties p q && sameAll cs ds && x.same y
  | text v x, text w y => v == w && x.same y
  | other k v none x, other l w none y => k == l && v == w && x.same y
  | other k v (some cs) x, other l w (some ds) y => k == l && v == w && sameAll cs ds && x.same y
  | _, _ => false

/-- Equality of lists of nodes, node by node. -/
def sameAll : List Node → List Node → Bool
  | [], [] => true
  | a :: as, b :: bs => same a b && sameAll as bs
  | _, _ => false

end

end Node

end DocTree
