import DocTree.Json.Embedded
import DocTree.Node.Basic

/-!
# Errors of written trees

What a well-formed text may say that is no tree (`Mismatch`), and the errors of a tree as a whole
(`TreeError`): its text cannot be read or written, or a node is faulty.
-/

namespace DocTree

/-- What may be expected at a place in the text of a tree. -/
inductive Expected where
  | node
  | string
  | children
  | properties
  deriving DecidableEq

/-- The words for what is expected. -/
def Expected.describe : Expected → String
  | node => "struct RawNode"
  | string => "a string"
  | children => "a sequence"
  | properties => "a map"

/-- Why a text is not the text of a tree, though it is well formed up to there. -/
inductive Mismatch where
  /-- A value of another type stands where the expected one should. -/
  | wrongType (found : Json.Head) (expected : Expected)
  /-- A node does not say its kind. -/
  | missingType
  /-- A field of a node is given twice. -/
  | duplicateField (name : String)
  /-- The value of a property is none of the forms of property values. -/
  | notPropertyValue
  /-- An extra field embeds a text that says nothing. -/
  | embedded (fault : Json.EmbeddedFault)
  /-- The fields of a node do not make a node of its kind. -/
  | fault (f : NodeFault)

/-- The text of the mismatch. -/
def Mismatch.message : Mismatch → String
  | wrongType found expected => found.wrongType expected.describe
  | missingType => "missing field `type`"
  | duplicateField name => "duplicate field `" ++ name ++ "`"
  | notPropertyValue => "data did not match any variant of untagged enum PropertyValue"
  | embedded e => e.message
  | fault f => f.message

/-- An error of a tree. -/
inductive TreeError where
  /-- The text of the tree cannot be read, or the tree has none. -/
  | invalidJson (reason : ReadError Mismatch)
  | fault (f : NodeFault)

/-- The text of the error. -/
def TreeError.message : TreeError → String
  | invalidJson reason => "Invalid HAST JSON: " ++ reason.message Mismatch.message
  | fault f => f.message

end DocTree
