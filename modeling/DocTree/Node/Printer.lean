import DocTree.Json.Printer
import DocTree.Node.Basic

/-!
# Writing trees

The JSON form of a node: the fields of its kind in a fixed order, the content and the property map
only where the kind has them, and then the extra fields.  An element with an empty tag has no
written form, wherever in the tree it stands; every other tree has one.
-/

namespace DocTree.Node

/-- The member for a value that may be absent. -/
def valueMember : Option String → List (String × Json)
  | none => []
  | some value => [("value", .string value)]

/-- The member for a property map that may be absent. -/
def propertiesMember : Option Properties → List (String × Json)
  | none => []
  | some properties => [("properties", properties.toJson)]

mutual

/-- The JSON form of a node. -/
def toJson : Node → Except NodeFault Json
  | root children extra => do
    return .object <|
      ("type", .string "root") :: ("children", .array (← toJsonAll children)) :: extra.members
  | element tag properties children extra =>
    if tag = "" then .error .emptyTag
    else do
      return .object <|
        ("type", .string "element") :: ("tagName", .string tag) ::
          propertiesMember properties ++
          ("children", .array (← toJsonAll children)) :: extra.members
  | text value extra =>
    return .object <| ("type", .string "text") :: ("value", .string value) :: extra.members
  | other kind value none extra =>
    return .object <| ("type", .string kind) :: valueMember value ++ extra.members
  | other kind value (some children) extra => do
    return .object <|
      ("type", .string kind) :: ("children", .array (← toJsonAll children)) ::
        valueMember value ++ extra.members

/-- The JSON forms of nodes. -/
def toJsonAll : List Node → Except NodeFault (List Json)
  | [] => return []
  | node :: rest => return (← toJson node) :: (← toJsonAll rest)

end

/-- The compact text of a node. -/
def render (node : Node) : Except NodeFault String := return (← node.toJson).render

end DocTree.Node
