import DocTree.Json.Basic

/-!
# Writing JSON

The compact text of a value: no blanks, the members of objects as they stand, and in strings only
the quote, the backslash and the controls below U+0020 escaped.  That the package `serde_json` writes
this text and no other is assumed of it.
-/

namespace DocTree.Json

/-- The two lower-case hexadecimal digits of a code below 256. -/
def hexPair (code : Nat) : List Char :=
  [Nat.digitChar (code / 16), Nat.digitChar (code % 16)]

/-- A character as it stands in a string. -/
def escapeChar (c : Char) : List Char :=
  match c with
  | '"' => ['\\', '"']
  | '\\' => ['\\', '\\']
  | '\x08' => ['\\', 'b']
  | '\x0c' => ['\\', 'f']
  | '\n' => ['\\', 'n']
  | '\r' => ['\\', 'r']
  | '\t' => ['\\', 't']
  | c => if c.toNat < 0x20 then ['\\', 'u', '0', '0'] ++ hexPair c.toNat else [c]

/-- A string between quotes, escaped. -/
def writeString (s : String) : List Char :=
  '"' :: s.toList.flatMap escapeChar ++ ['"']

mutual

/-- The compact text of a value, as a list of characters. -/
def write : Json → List Char
  | null => ['n', 'u', 'l', 'l']
  | bool true => ['t', 'r', 'u', 'e']
  | bool false => ['f', 'a', 'l', 's', 'e']
  | integer n => n.write
  | float x => floatLayout.write x
  | string s => writeString s
  | array items => '[' :: writeItems items ++ [']']
  | object members => '{' :: writeMembers members ++ ['}']

/-- The items of an array, with commas between them. -/
def writeItems : List Json → List Char
  | [] => []
  | item :: rest => item.write ++ writeMoreItems rest

/-- Further items of an array, a comma before each. -/
def writeMoreItems : List Json → List Char
  | [] => []
  | item :: rest => ',' :: item.write ++ writeMoreItems rest

/-- The members of an object, with commas between them. -/
def writeMembers : List (String × Json) → List Char
  | [] => []
  | (key, value) :: rest => writeString key ++ ':' :: value.write ++ writeMoreMembers rest

/-- Further members of an object, a comma before each. -/
def writeMoreMembers : List (String × Json) → List Char
  | [] => []
  | (key, value) :: rest => ',' :: writeString key ++ ':' :: value.write ++ writeMoreMembers rest

end

/-- The compact text of a value. -/
def render (j : Json) : String := String.ofList j.write

end DocTree.Json
