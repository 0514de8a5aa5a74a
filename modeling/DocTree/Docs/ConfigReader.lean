import DocTree.Docs.Config
import DocTree.Json.Relaxed
import DocTree.Node.Mismatch

/-!
# Reading configurations

A configuration is written in relaxed JSON.  An object gives fields by key, in any order: its
members are taken in the order of their keys, of equal keys the last one, so what is reported does
not depend on how the object was written.  An array gives fields by their place.  A text without a
value is the default configuration.
-/

namespace DocTree.Docs

/-- What may be expected at a place in a configuration. -/
inductive ConfigExpected where
  | config
  | string
  | boolean
  deriving DecidableEq

/-- The words for what is expected. -/
def ConfigExpected.describe : ConfigExpected → String
  | config => "struct TransformConfig"
  | string => "a string"
  | boolean => "a boolean"

/-- Why a JSON value is no configuration. -/
inductive ConfigMismatch where
  | wrongType (found : Json.Head) (expected : ConfigExpected)
  | unknownField (key : String)
  /-- An array has more items than there are fields. -/
  | tooManyItems (count : Nat)

/-- The text of the mismatch. -/
def ConfigMismatch.message : ConfigMismatch → String
  | wrongType found expected => found.wrongType expected.describe
  | unknownField key =>
    "unknown field `" ++ key ++ "`, expected one of " ++
      String.intercalate ", " (Config.Field.all.map fun field => "`" ++ field.key ++ "`")
  | tooManyItems count =>
    "invalid length " ++ String.ofList (Nat.toDigits 10 count) ++
      ", expected fewer elements in array"

/-- Why there is no configuration. -/
inductive ConfigError where
  /-- The file cannot be read as text. -/
  | unreadable (path : String)
  /-- The text is no relaxed JSON. -/
  | invalidJson
  | invalid (reason : ConfigMismatch)
  /-- A reason that a caller gives in its own words. -/
  | custom (reason : String)

/-- The text of the error. -/
def ConfigError.message : ConfigError → String
  | unreadable path => "Failed to read " ++ path ++ ": <io>"
  | invalidJson => "Invalid JSON: <syntax>"
  | invalid reason => "Invalid config: " ++ reason.message
  | custom reason => reason

namespace Config

/-- The string that a value says. -/
def stringOfJson : Json → Except ConfigMismatch String
  | .string s => .ok s
  | j => .error (.wrongType j.head .string)

/-- The truth value that a value says. -/
def boolOfJson : Json → Except ConfigMismatch Bool
  | .bool b => .ok b
  | j => .error (.wrongType j.head .boolean)

/-- Sets a field to what a value says. -/
def set (c : Config) (field : Field) (value : Json) : Except ConfigMismatch Config :=
  match field with
  | .headingClass => return { c with headingClass := ← stringOfJson value }
  | .permalinkClass => return { c with permalinkClass := ← stringOfJson value }
  | .permalinkLabel => return { c with permalinkLabel := ← stringOfJson value }
  | .permalinkText => return { c with permalinkText := ← stringOfJson value }
  | .calloutBaseClass => return { c with calloutBaseClass := ← stringOfJson value }
  | .tableWrapperClass => return { c with tableWrapperClass := ← stringOfJson value }
  | .strictCallouts => return { c with strictCallouts := ← boolOfJson value }

/-- Sets the field with the given key. -/
def setMember (c : Config) (member : String × Json) : Except ConfigMismatch Config :=
  match Field.ofKey? member.1 with
  | some field => c.set field member.2
  | none => .error (.unknownField member.1)

/-- The configuration that a value says. -/
def ofJson : Json → Except ConfigMismatch Config
  | .object members => (Members.sorted members).foldlM setMember {}
  | .array items => do
    let config ← (Field.all.zip items).foldlM (fun c (field, item) => c.set field item) {}
    if Field.all.length < items.length then .error (.tooManyItems items.length)
    else .ok config
  | j => .error (.wrongType j.head .config)

/-- The configuration that a text says. -/
def parse (text : String) : Except ConfigError Config :=
  match Json.Relaxed.parse text with
  | .error _ => .error .invalidJson
  | .ok none => .ok {}
  | .ok (some value) => (ofJson value).mapError .invalid

/-- The configuration in a file, given its bytes if it can be read. -/
def ofFile (path : String) (bytes : Option ByteArray) : Except ConfigError Config :=
  match bytes.bind String.fromUTF8? with
  | some text => parse text
  | none => .error (.unreadable path)

end Config

end DocTree.Docs
