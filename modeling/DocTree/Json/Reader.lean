import DocTree.Json.Numeral
import DocTree.Json.Printer

/-!
# Reading JSON

The strict grammar: the four blank characters, no comments, no trailing commas, no raw controls in
strings, escapes of surrogates only in pairs, and nothing behind the value.  At most 127 containers
may be open at a time.

The readings of containers are given by what to do with an item or a member (`Json.items`,
`Json.members`), so a format that is written in JSON can check its content while it is read: it may
refuse a member at its key, and a value at its first token (`Json.token`).

The program leaves the reading of texts to the package `serde_json`, and what stands here is assumed
of it: that it takes the grammar above and nothing else, with this limit on open containers; that it
hands on items and members one by one as they are written, members with equal keys too; and that of
several faults it reports the one that a reader from left to right meets first.  How it reads
numbers is told in `DocTree.Json.Numeral`.
-/

namespace DocTree.Json

open Reading

variable {Reason α σ : Type}

/-- The containers that may be open at a time. -/
def maxNesting : Nat := 127

/-- The blank characters between tokens. -/
def isBlank (c : Char) : Bool := c == ' ' || c == '\t' || c == '\n' || c == '\r'

/-- Passes over the blanks before the next token. -/
def skipBlanks : Reading Reason Unit := skipWhile isBlank

/-! ### Strings -/

/-- The value of a hexadecimal digit. -/
def hexDigit? (c : Char) : Option Nat :=
  if c.isDigit then some (c.toNat - '0'.toNat)
  else if 'a' ≤ c ∧ c ≤ 'f' then some (c.toNat - 'a'.toNat + 10)
  else if 'A' ≤ c ∧ c ≤ 'F' then some (c.toNat - 'A'.toNat + 10)
  else none

/-- The number that hexadecimal digits denote; none if another character is among them. -/
def ofHex? (digits : List Char) : Option Nat :=
  digits.foldlM (fun n c => (hexDigit? c).map (16 * n + ·)) 0

/-- Four hexadecimal digits.  A text with fewer than four bytes left ends before them. -/
def hexQuad : Reading Reason Nat := fun text =>
  if (String.ofList (text.take 4)).utf8ByteSize < 4 then .error (.unreadable (.endsIn .string))
  else match ofHex? (text.take 4) with
    | some code => .ok (code, text.drop 4)
    | none => .error (.unreadable (.malformed .badEscape))

/-- The character of a surrogate pair. -/
def ofSurrogates (high low : Nat) : Char :=
  Char.ofNat (0x10000 + (high - 0xD800) * 0x400 + (low - 0xDC00))

/-- The character of a numeric escape, behind its `u`: a code point, or two surrogates in a pair of
escapes. -/
def unicodeEscape : Reading Reason Char := do
  let code ← hexQuad
  if code < 0xD800 ∨ 0xDFFF < code then return Char.ofNat code
  else if 0xDC00 ≤ code then reject .loneSurrogate
  else
    expect .string .unfinishedPair ['\\', 'u']
    let low ← hexQuad
    if 0xDC00 ≤ low ∧ low ≤ 0xDFFF then return ofSurrogates code low
    else reject .loneSurrogate

/-- The character of an escape in a string between the given quotes, behind its backslash. -/
def escape (quote : Char) : Reading Reason Char := do
  match ← next .string with
  | '\\' => return '\\'
  | '/' => return '/'
  | 'b' => return '\x08'
  | 'f' => return '\x0c'
  | 'n' => return '\n'
  | 'r' => return '\r'
  | 't' => return '\t'
  | 'u' => unicodeEscape
  | c => if c = quote then return c else reject .badEscape

/-- The next character of a string; none if its closing quote follows. -/
def stringChar? : Reading Reason (Option Char) := do
  match ← next .string with
  | '"' => return none
  | '\\' => return some (← escape '"')
  | c => if c.toNat < 0x20 then reject .controlCharacter else return some c

/-- A string, behind its opening quote. -/
def stringRest : Reading Reason String := do
  return String.ofList (← many .string stringChar?)

/-! ### Tokens -/

/-- The digits before the point of a number: no digit follows a leading zero. -/
def wholeDigits : Reading Reason (List Char) := do
  let digits ← Numeral.wholeDigits
  let following ← peek
  if digits = ['0'] ∧ following.any Char.isDigit then reject .badNumber
  else return digits

/-- A number: a numeral with a minus sign or none, which must not be too large for a double. -/
def numberBy (round : Numeral → Option Binary64.Finite) : Reading Reason Head := do
  let sign ← takeIf ['-']
  let numeral ← Numeral.unsigned sign.isSome wholeDigits
  match numeral.toJsonBy? round with
  | some j => return j.head
  | none => reject .numberTooLarge

/-- One of the words that are values. -/
def word : List Char → Reading Reason Unit := expect .value .unknownWord

/-- The beginning of a value: a scalar as a whole, or the opening bracket of a container. -/
def tokenBy (round : Numeral → Option Binary64.Finite) : Reading Reason Head := do
  skipBlanks
  match ← peek with
  | none => fail (.endsIn .value)
  | some 'n' => word ['n', 'u', 'l', 'l']; return .null
  | some 't' => word ['t', 'r', 'u', 'e']; return .bool true
  | some 'f' => word ['f', 'a', 'l', 's', 'e']; return .bool false
  | some '"' => let _ ← next .value; return .string (← stringRest)
  | some '[' => let _ ← next .value; return .array
  | some '{' => let _ ← next .value; return .object
  | some c => if c = '-' ∨ c.isDigit then numberBy round else reject .noValue

/-- The beginning of a value, with numbers as they are read. -/
abbrev token : Reading Reason Head := tokenBy Numeral.toFinite?

/-! ### Containers -/

/-- Whether an array has an item, behind its opening bracket. -/
def anyItem : Reading Reason Bool := do
  skipBlanks
  match ← peek with
  | none => fail (.endsIn .list)
  | some ']' => let _ ← next .list; return false
  | some _ => return true

/-- Whether an array has another item, behind an item. -/
def anotherItem : Reading Reason Bool := do
  skipBlanks
  match ← next .list with
  | ']' => return false
  | ',' =>
    skipBlanks
    if (← peek) = some ']' then reject .trailingComma else return true
  | _ => reject .noListEnd

/-- The item behind an item, read by `item`; none if the array closes. -/
def laterItem? (item : Reading Reason α) : Reading Reason (Option α) := do
  match ← anotherItem with
  | false => return none
  | true => return some (← item)

/-- The items of an array behind its opening bracket, each read by `item`. -/
def items (item : Reading Reason α) : Reading Reason (List α) := do
  match ← anyItem with
  | false => return []
  | true => return (← item) :: (← many .list (laterItem? item))

/-- The colon between a key and its value. -/
def colon : Reading Reason Unit := do
  skipBlanks
  if (← next .object) = ':' then return () else reject .noColon

/-- A member of an object behind its key.  The key decides, before the colon is read, how the value
is read and what becomes of the state, or that it is refused. -/
def member (value : σ → String → Except Reason (Reading Reason σ)) (state : σ) (key : String) :
    Reading Reason σ :=
  match value state key with
  | .error reason => refuse reason
  | .ok reading => do
    colon
    reading

/-- The first key of an object behind its opening bracket; none if the object is empty. -/
def firstKey : Reading Reason (Option String) := do
  skipBlanks
  match ← next .object with
  | '}' => return none
  | '"' => return some (← stringRest)
  | _ => reject .noKey

/-- The key behind a comma between members. -/
def laterKey : Reading Reason String := do
  skipBlanks
  match ← next .value with
  | '"' => stringRest
  | '}' => reject .trailingComma
  | _ => reject .noKey

/-- The key of a member behind the members before it; none if the object closes. -/
def laterKey? : Reading Reason (Option String) := do
  skipBlanks
  match ← next .object with
  | '}' => return none
  | ',' => return some (← laterKey)
  | _ => reject .noObjectEnd

/-- The state with a member behind the members before it; none if the object closes. -/
def laterMember? (value : σ → String → Except Reason (Reading Reason σ)) (state : σ) :
    Reading Reason (Option σ) := do
  match ← laterKey? with
  | none => return none
  | some key => return some (← member value state key)

/-- The members of an object behind a member, gathered into a state. -/
def laterMembers (value : σ → String → Except Reason (Reading Reason σ)) (state : σ) :
    Reading Reason σ :=
  iterate .object (laterMember? value) state

/-- The members of an object behind its opening bracket, gathered into a state. -/
def members (value : σ → String → Except Reason (Reading Reason σ)) (init : σ) :
    Reading Reason σ := do
  match ← firstKey with
  | none => return init
  | some key => laterMembers value (← member value init key)

/-- Adds a member, whose value `value` reads, behind those read before. -/
def collect (value : Reading Reason Json) (read : List (String × Json)) (key : String) :
    Except Reason (Reading Reason (List (String × Json))) :=
  .ok do return read ++ [(key, ← value)]

/-- A value, given how the rest of an array and of an object are read behind their opening
brackets. -/
def valueWithBy (round : Numeral → Option Binary64.Finite) (array object : Reading Reason Json) :
    Reading Reason Json := do
  match ← tokenBy round with
  | .null => return .null
  | .bool b => return .bool b
  | .integer n => return .integer n
  | .float x => return .float x
  | .string s => return .string s
  | .array => array
  | .object => object

/-- A value in which at most `levels` containers are open at a time. -/
def valueBy (round : Numeral → Option Binary64.Finite) : Nat → Reading Reason Json
  | 0 => valueWithBy round (fail .tooDeep) (fail .tooDeep)
  | levels + 1 =>
    valueWithBy round (do return .array (← items (valueBy round levels)))
      (do return .object (← members (collect (valueBy round levels)) []))

/-- A value, with numbers as they are read, given how the rest of an array and of an object are read
behind their opening brackets. -/
abbrev valueWith (array object : Reading Reason Json) : Reading Reason Json :=
  valueWithBy Numeral.toFinite? array object

/-- A value in which at most `levels` containers are open at a time, with numbers as they are read. -/
abbrev value (levels : Nat) : Reading Reason Json := valueBy Numeral.toFinite? levels

/-- A whole text that `reading` takes, with blanks around it. -/
def readAll (reading : Reading Reason α) (text : String) : Except (ReadError Reason) α :=
  Reading.run (do let result ← reading; skipBlanks; return result) text

/-- The value that a text says. -/
def parse (text : String) : Except (ReadError Empty) Json := readAll (value maxNesting) text

end DocTree.Json
