/-!
# Reading text

A `Reading` takes the characters that are left, and either gives a value and the characters after
it or stops with a `ReadError`.  What a reading accepts is decided from left to right, so the first
error met is the one reported.  A fault of the text is one of a fixed number (`TextFault`); of errors
that concern the content, each format brings its own type.

A repetition is bounded by the text that is left when it starts (`Reading.iterate`): every round
takes at least one character, so there are never more rounds than characters.
-/

namespace DocTree

/-! ### Errors -/

/-- What a text may end inside of. -/
inductive Unfinished where
  | value
  | string
  | list
  | object
  deriving DecidableEq

/-- How a character may be out of place. -/
inductive Malformation where
  | noValue
  | unknownWord
  | badNumber
  | numberTooLarge
  | badEscape
  | loneSurrogate
  /-- The first half of a surrogate pair without the escape of the second. -/
  | unfinishedPair
  | controlCharacter
  | noKey
  | noColon
  | noListEnd
  | noObjectEnd
  /-- A comma without an item or a member behind it. -/
  | trailingComma
  /-- Something stands behind the value. -/
  | trailingText
  deriving DecidableEq

/-- What may be wrong with a text, whatever it says. -/
inductive TextFault where
  /-- The text ended before the value did. -/
  | endsIn (what : Unfinished)
  /-- A character stands where none of its kind may stand. -/
  | malformed (how : Malformation)
  /-- Containers are nested beyond the limit. -/
  | tooDeep
  deriving DecidableEq

/-- The words for what the text ended inside of. -/
def Unfinished.describe : Unfinished → String
  | value => "a value"
  | string => "a string"
  | list => "a list"
  | object => "an object"

/-- The words for what is out of place. -/
def Malformation.describe : Malformation → String
  | noValue => "expected value"
  | unknownWord => "expected ident"
  | badNumber => "invalid number"
  | numberTooLarge => "number out of range"
  | badEscape => "invalid escape"
  | loneSurrogate => "lone leading surrogate in hex escape"
  | unfinishedPair => "unexpected end of hex escape"
  | controlCharacter =>
    "control character (\\u0000-\\u001F) found while parsing a string"
  | noKey => "key must be a string"
  | noColon => "expected `:`"
  | noListEnd => "expected `,` or `]`"
  | noObjectEnd => "expected `,` or `\x7d`"
  | trailingComma => "trailing comma"
  | trailingText => "trailing characters"

/-- The words for a fault. -/
def TextFault.describe : TextFault → String
  | endsIn what => "EOF while parsing " ++ what.describe
  | malformed how => how.describe
  | tooDeep => "recursion limit exceeded"

/-- What a message says of a fault in the text that was to be read: only of which kind it is, since
the text itself is at hand. -/
def TextFault.mark : TextFault → String
  | endsIn _ => "<eof>"
  | malformed _ => "<syntax>"
  | tooDeep => "recursion limit exceeded"

/-- Why a text was not read. -/
inductive ReadError (Reason : Type) where
  /-- The text is not well formed. -/
  | unreadable (fault : TextFault)
  /-- The text is well formed as far as it was read, but what it says is refused. -/
  | refused (reason : Reason)
  deriving DecidableEq

/-- The text of the error; `reason` words the refusals. -/
def ReadError.message {Reason : Type} (reason : Reason → String) : ReadError Reason → String
  | unreadable fault => fault.mark
  | refused r => reason r

/-! ### Steps -/

/-- A step of reading: from the characters left to a value and the characters then left. -/
abbrev Reading (Reason : Type) : Type → Type := StateT (List Char) (Except (ReadError Reason))

namespace Reading

variable {Reason α σ : Type}

/-- Stops because of the text. -/
def fail (fault : TextFault) : Reading Reason α := fun _ => .error (.unreadable fault)

/-- Stops because a character is out of place. -/
def reject (how : Malformation) : Reading Reason α := fail (.malformed how)

/-- Stops because of the content. -/
def refuse (reason : Reason) : Reading Reason α := fun _ => .error (.refused reason)

/-- The next character, which stays. -/
def peek : Reading Reason (Option Char) := fun text => .ok (text.head?, text)

/-- Takes the next character; there must be one, inside of what is being read. -/
def next (inside : Unfinished) : Reading Reason Char
  | [] => .error (.unreadable (.endsIn inside))
  | c :: rest => .ok (c, rest)

/-- Takes the next character if it is one of the given ones, and says which. -/
def takeIf (allowed : List Char) : Reading Reason (Option Char)
  | [] => .ok (none, [])
  | c :: rest => if c ∈ allowed then .ok (some c, rest) else .ok (none, c :: rest)

/-- Takes the characters up to the first that does not satisfy `p`. -/
def takeWhile (p : Char → Bool) : Reading Reason (List Char) := fun text =>
  .ok (text.takeWhile p, text.dropWhile p)

/-- Passes over the characters up to the first that does not satisfy `p`. -/
def skipWhile (p : Char → Bool) : Reading Reason Unit := fun text => .ok ((), text.dropWhile p)

/-- Takes exactly the given characters; another one is out of place in the way given. -/
def expect (inside : Unfinished) (how : Malformation) : List Char → Reading Reason Unit
  | [] => pure ()
  | c :: rest => do
    if (← next inside) = c then expect inside how rest else reject how

/-- Repeats `step` until it gives no new state, in at most as many rounds as `fuel` is long. -/
def iterateWithin (inside : Unfinished) (step : σ → Reading Reason (Option σ)) :
    List Char → σ → Reading Reason σ
  | [], _ => fail (.endsIn inside)
  | _ :: fuel, state => do
    match ← step state with
    | none => pure state
    | some state => iterateWithin inside step fuel state

/-- Repeats `step` until it gives no new state.  Each round has to take a character; a text that is
used up ends the repetition as it would end the next round. -/
def iterate (inside : Unfinished) (step : σ → Reading Reason (Option σ)) (state : σ) :
    Reading Reason σ := fun text =>
  iterateWithin inside step text state text

/-- Collects what `step` gives until it gives nothing. -/
def many (inside : Unfinished) (step : Reading Reason (Option α)) : Reading Reason (List α) := do
  let collected ← iterate inside (fun found => do return (← step).map (· :: found)) []
  return collected.reverse

/-- Reads a whole text: nothing may be left. -/
def run (reading : Reading Reason α) (text : String) : Except (ReadError Reason) α := do
  match ← reading text.toList with
  | (value, []) => .ok value
  | (_, _ :: _) => .error (.unreadable (.malformed .trailingText))

end Reading

end DocTree
