import DocTree.Json.Reader
import DocTree.Text.Alphanumeric
import DocTree.Text.Blank

/-!
# Reading relaxed JSON

The JSON that people write by hand.  Beyond the strict grammar it has comments, white space of every
script, strings between either quotes with raw controls in them, keys without quotes, numbers with a
plus sign or in hexadecimal, a comma behind the last item, and items with no comma between them.  A
text may also hold no value at all.

The program leaves this reading to the package `jsonc-parser` with all its liberties allowed, and what
stands here is assumed of it: that it takes the liberties above and no others; that it hands on items
and members as they are written; and that a decimal number has the value that
`DocTree.Json.Numeral` reads.  A number that is refused there, or one in hexadecimal that no signed
integer of 64 bits has, stands for its own text.
-/

namespace DocTree.Json.Relaxed

open Reading

variable {Reason : Type}

/-! ### Gaps -/

/-- Where in a gap between two tokens a character stands. -/
inductive Place where
  /-- Outside of comments. -/
  | between
  /-- In a comment that ends with the line. -/
  | line
  /-- In a comment that ends with a mark. -/
  | block

/-- Passes over white space and comments.  A gap ends with the first other character or with the
text, which may end a line comment but no block comment. -/
def dropGap : Place → List Char → Except (ReadError Reason) (List Char)
  | .between, [] => .ok []
  | .between, c :: rest =>
    if c = '/' then
      match rest with
      | '/' :: rest => dropGap .line rest
      | '*' :: rest => dropGap .block rest
      | _ => .error (.unreadable (.malformed .noValue))
    else if Text.isBlank c then dropGap .between rest
    else .ok (c :: rest)
  | .line, [] => .ok []
  | .line, c :: rest => if c = '\n' then dropGap .between rest else dropGap .line rest
  | .block, [] => .error (.unreadable (.endsIn .value))
  | .block, '*' :: '/' :: rest => dropGap .between rest
  | .block, _ :: rest => dropGap .block rest

/-- Passes over the gap before the next token. -/
def skipGap : Reading Reason Unit := fun text => return ((), ← dropGap .between text)

/-! ### Strings -/

/-- The next character of a string between the given quotes; none if the closing one follows. -/
def stringChar? (quote : Char) : Reading Reason (Option Char) := do
  let c ← next .string
  if c = quote then return none
  else if c = '\\' then return some (← escape quote)
  else return some c

/-- A string, behind its opening quote. -/
def stringRest (quote : Char) : Reading Reason String := do
  return String.ofList (← many .string (stringChar? quote))

/-! ### Numbers -/

/-- The value of a hexadecimal numeral; none if no signed integer of 64 bits has its magnitude. -/
def hexToJson? (negative : Bool) (digits : List Char) : Option Json := do
  let magnitude ← ofHex? digits
  guard (magnitude < 2 ^ 63)
  return .integer (← Integer.ofInt? (if negative then -(magnitude : Int) else magnitude))

/-- The digits of a hexadecimal numeral behind its mark; at least one. -/
def hexDigits : Reading Reason (List Char) := do
  let digits ← takeWhile fun c => (hexDigit? c).isSome
  if digits = [] then reject .badNumber else return digits

/-- A numeral with a sign or none: its value, if a number of JSON has it. -/
def numeral : Reading Reason (Option Json) := do
  let sign ← takeIf ['-', '+']
  let negative := sign = some '-'
  let decimal ← Numeral.unsigned negative Numeral.wholeDigits
  let mark ← if decimal.plain ∧ decimal.whole = ['0'] then takeIf ['x', 'X'] else pure none
  match mark with
  | some _ => return hexToJson? negative (← hexDigits)
  | none => return decimal.toJson?

/-- A number and its text. -/
def number : Reading Reason (Option Json × String) := fun text => do
  let (value, rest) ← numeral text
  return ((value, String.ofList (text.take (text.length - rest.length))), rest)

/-- Whether a number begins with the character. -/
def beginsNumber (c : Char) : Bool := c == '-' || c == '+' || c.isDigit

/-! ### Words -/

/-- The words that are values, and therefore no keys. -/
def wordValues : List (String × Json) :=
  [("true", .bool true), ("false", .bool false), ("null", .null)]

/-- Whether a text begins with a word value.  With a letter or a digit behind it, it is another
word. -/
def startsWithValue (text : List Char) (word : String) : Bool :=
  word.toList.isPrefixOf text && !(text.drop word.length).head?.any Text.isAlphanumeric

/-- A word value. -/
def wordValue : Reading Reason Json := fun text =>
  match wordValues.find? fun (word, _) => startsWithValue text word with
  | some (word, value) => .ok (value, text.drop word.length)
  | none => .error (.unreadable (.malformed .unknownWord))

/-- Whether a key without quotes may hold the character. -/
def isWordChar (c : Char) : Bool := Text.isAlphanumeric c || c == '-' || c == '_'

/-- A key without quotes.  It ends before white space or a colon. -/
def wordKey : Reading Reason String := fun text =>
  let word := text.takeWhile isWordChar
  let rest := text.dropWhile isWordChar
  if word = [] ∨ (wordValues.any fun (w, _) => startsWithValue text w) ∨
      (rest.head?.any fun c => !(Text.isBlank c || c == ':')) then
    .error (.unreadable (.malformed .noKey))
  else .ok (String.ofList word, rest)

/-- A key: a string, a number that stands for its text, or a word. -/
def key : Reading Reason String := do
  match ← peek with
  | some '"' => let _ ← next .object; stringRest '"'
  | some '\'' => let _ ← next .object; stringRest '\''
  | some c => if beginsNumber c then return (← number).2 else wordKey
  | none => fail (.endsIn .object)

/-! ### Values -/

/-- Passes over a comma, if one follows. -/
def skipComma : Reading Reason Unit := do
  skipGap
  let _ ← takeIf [',']

/-- The items of an array behind its opening bracket, given how an item is read. -/
def items (value : Reading Reason Json) : Reading Reason (List Json) :=
  many .list do
    skipGap
    match ← takeIf [']'] with
    | some _ => return none
    | none =>
      let item ← value
      skipComma
      return some item

/-- The members of an object behind its opening bracket, given how a value is read. -/
def members (value : Reading Reason Json) : Reading Reason (List (String × Json)) :=
  many .object do
    skipGap
    match ← takeIf ['}'] with
    | some _ => return none
    | none =>
      let key ← key
      skipGap
      expect .object .noColon [':']
      let item ← value
      skipComma
      return some (key, item)

/-- A value.  Every container takes a character, so the text as a whole is deep enough a bound for
their nesting. -/
def value : List Char → Reading Reason Json
  | [] => fail (.endsIn .value)
  | _ :: deeper => do
    skipGap
    match ← peek with
    | none => fail (.endsIn .value)
    | some '"' => let _ ← next .value; return .string (← stringRest '"')
    | some '\'' => let _ ← next .value; return .string (← stringRest '\'')
    | some '[' => let _ ← next .value; return .array (← items (value deeper))
    | some '{' => let _ ← next .value; return .object (← members (value deeper))
    | some c =>
      if beginsNumber c then
        let (number, text) ← number
        return number.getD (.string text)
      else wordValue

/-- The value that a text says; none if it holds nothing but gaps. -/
def parse (text : String) : Except (ReadError Empty) (Option Json) :=
  Reading.run (do
    skipGap
    match ← peek with
    | none => return none
    | some _ =>
      let result ← value text.toList
      skipGap
      return some result) text

end DocTree.Json.Relaxed
