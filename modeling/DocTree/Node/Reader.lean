import DocTree.Json.Reader
import DocTree.Node.Mismatch
import DocTree.Node.Printer

/-!
# Reading trees

A tree is read in one pass and checked while it is read, so of several errors the first in the
text is reported: a field of the wrong type where its value begins, a field given twice at its
second key, and what a node lacks where its object closes.  The known fields are checked on every
node, whatever its kind, and those that its kind does not have are then dropped; every other field
is extra.  Texts embedded in extra fields are read where the object closes.

Reading undoes writing (`Node.toJson`), as long as no object in the extra fields begins like an
embedded text.  A text that was not written so may say more, such as fields in another order, and
null for a field that is absent.
-/

namespace DocTree

open Reading

/-! ### Property values -/

/-- Passes a JSON value on as a property value, if it is one. -/
def PropertyValue.check (j : Json) : Reading Mismatch PropertyValue :=
  match ofJson? j with
  | some value => return value
  | none => refuse .notPropertyValue

/-- A property value in which at most `levels` containers are open at a time. -/
def PropertyValue.reading (levels : Nat) : Reading Mismatch PropertyValue := do
  check (← Json.value levels)

/-- The members of a property map, behind its opening bracket.  A repeated name keeps its first
place and takes its last value. -/
def Properties.rest (levels : Nat) : Reading Mismatch Properties :=
  Json.members (fun properties name => .ok do
    return properties.insert name (← PropertyValue.reading levels)) .empty

/-- A property map in which at most `levels` containers are open at a time, itself included. -/
def Properties.reading (levels : Nat) : Reading Mismatch Properties := do
  match ← Json.token, levels with
  | .object, levels + 1 => rest levels
  | .object, 0 => fail .tooDeep
  | found, _ => refuse (.wrongType found .properties)

/-- The property value that a text says. -/
def PropertyValue.parse (text : String) : Except (ReadError Mismatch) PropertyValue :=
  Json.readAll (reading Json.maxNesting) text

/-- The property map that a text says. -/
def Properties.parse (text : String) : Except (ReadError Mismatch) Properties :=
  Json.readAll (reading Json.maxNesting) text

namespace Node

/-! ### Fields -/

/-- The fields that have a meaning on some kind of node. -/
inductive Field where
  | type
  | tagName
  | value
  | properties
  | children
  deriving DecidableEq

/-- The key of a field. -/
def Field.key : Field → String
  | type => "type"
  | tagName => "tagName"
  | value => "value"
  | properties => "properties"
  | children => "children"

/-- All fields. -/
def Field.all : List Field := [type, tagName, value, properties, children]

/-- The field with the given key. -/
def Field.ofKey? (key : String) : Option Field := all.find? (·.key = key)

/-- The fields of a node as far as they are read.  A field that was given as null is there without a
value. -/
structure Fields where
  type : Option String
  tagName : Option (Option String)
  value : Option (Option String)
  properties : Option (Option Properties)
  children : Option (Option (List Node))
  /-- The other fields, in the order written. -/
  extra : List (String × Json)

namespace Fields

/-- Before the first field. -/
def none : Fields := ⟨.none, .none, .none, .none, .none, []⟩

/-- Whether a field was given. -/
def has (fields : Fields) : Field → Bool
  | .type => fields.type.isSome
  | .tagName => fields.tagName.isSome
  | .value => fields.value.isSome
  | .properties => fields.properties.isSome
  | .children => fields.children.isSome

/-- The extra fields, with the values of embedded texts put in. -/
def toExtra (fields : Fields) : Except Json.EmbeddedFault Extra :=
  (Json.resolveMembers fields.extra).map Extra.ofMembers

/-- The node of a kind that the fields make, with the given extra fields. -/
def toNodeOfKind (fields : Fields) (kind : String) (extra : Extra) : Except NodeFault Node :=
  let children := fields.children.join
  match kind with
  | "root" => .ok (.root (children.getD []) extra)
  | "element" =>
    match fields.tagName.join with
    | .none => .error (.missingField "tagName" "element")
    | some tag =>
      if tag = "" then .error .emptyTag
      else .ok (.element tag fields.properties.join (children.getD []) extra)
  | "text" =>
    match fields.value.join with
    | .none => .error (.missingField "value" "text")
    | some value => .ok (.text value extra)
  | kind => .ok (.other kind fields.value.join children extra)

/-- The node that the fields make. -/
def toNode (fields : Fields) : Except Mismatch Node :=
  match fields.type with
  | .none => .error .missingType
  | some kind => do
    let extra ← fields.toExtra.mapError .embedded
    (fields.toNodeOfKind kind extra).mapError .fault

end Fields

/-! ### Values of fields -/

/-- A string. -/
def stringField : Reading Mismatch String := do
  match ← Json.token with
  | .string s => return s
  | found => refuse (.wrongType found .string)

/-- A string or null. -/
def optionalString : Reading Mismatch (Option String) := do
  match ← Json.token with
  | .null => return none
  | .string s => return some s
  | found => refuse (.wrongType found .string)

/-- A property map or null. -/
def optionalProperties (levels : Nat) : Reading Mismatch (Option Properties) := do
  match ← Json.token, levels with
  | .null, _ => return none
  | .object, levels + 1 => return some (← Properties.rest levels)
  | .object, 0 => fail .tooDeep
  | found, _ => refuse (.wrongType found .properties)

/-- An array of nodes or null, given how a node is read; there is no reading of a node if no further
container may be opened. -/
def optionalChildren (node : Option (Reading Mismatch Node)) :
    Reading Mismatch (Option (List Node)) := do
  match ← Json.token, node with
  | .null, _ => return none
  | .array, some node => return some (← Json.items node)
  | .array, none => fail .tooDeep
  | found, _ => refuse (.wrongType found .children)

/-- What becomes of a member of a node's object, decided at its key: a known field may come once,
and any other member is an extra field. -/
def readField (levels : Nat) (children : Reading Mismatch (Option (List Node))) (fields : Fields)
    (key : String) : Except Mismatch (Reading Mismatch Fields) :=
  match Field.ofKey? key with
  | none => .ok do
    return { fields with extra := fields.extra ++ [(key, ← Json.value levels)] }
  | some field =>
    if fields.has field then .error (.duplicateField key)
    else match field with
      | .type => .ok do return { fields with type := some (← stringField) }
      | .tagName => .ok do return { fields with tagName := some (← optionalString) }
      | .value => .ok do return { fields with value := some (← optionalString) }
      | .properties => .ok do
        return { fields with properties := some (← optionalProperties levels) }
      | .children => .ok do return { fields with children := some (← children) }

/-! ### Nodes -/

/-- The members of a node's object behind its opening bracket, and the node they make. -/
def rest (levels : Nat) (children : Reading Mismatch (Option (List Node))) :
    Reading Mismatch Node := do
  let fields ← Json.members (readField levels children) .none
  match fields.toNode with
  | .ok node => return node
  | .error reason => refuse reason

/-- A node, given how the rest of its object is read; none says that no further container may be
opened. -/
def nodeAround (rest : Option (Reading Mismatch Node)) : Reading Mismatch Node := do
  match ← Json.token, rest with
  | .object, some rest => rest
  | .object, none => fail .tooDeep
  | found, _ => refuse (.wrongType found .node)

/-- A node in which at most `levels` containers are open at a time.  Its object takes one level and
the array of its children another. -/
def reading : Nat → Reading Mismatch Node
  | 0 => nodeAround none
  | 1 => nodeAround (some (rest 0 (optionalChildren none)))
  | levels + 2 => nodeAround (some (rest (levels + 1) (optionalChildren (some (reading levels)))))

/-- The node that a text says. -/
def parse (text : String) : Except (ReadError Mismatch) Node :=
  Json.readAll (reading Json.maxNesting) text

end Node

namespace Root

/-- A root: a node of that kind, which is known where its object closes. -/
def reading : Reading Mismatch Root := do
  match ← Node.reading Json.maxNesting with
  | .root children extra => return ⟨children, extra⟩
  | node => refuse (.fault (.notRoot node.kind))

/-- The tree that a text says. -/
def parse (text : String) : Except TreeError Root :=
  (Json.readAll reading text).mapError .invalidJson

/-- The text of a tree. -/
def render (r : Root) : Except TreeError String :=
  r.toNode.render.mapError fun f => .invalidJson (.refused (.fault f))

end Root

end DocTree
