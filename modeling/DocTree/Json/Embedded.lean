import DocTree.Json.Reader

/-!
# Embedded texts

A value may be given by its text: an object whose first key is `Json.embeddedKey` stands for the
value that the string under this key says.  Such an object has no other member, and the string is a
whole text, with a nesting limit of its own, in which further texts may be embedded.  Behind another
member the key is an ordinary one.

`Json.resolve` puts the values of embedded texts in place of such objects.  In an embedded text they
are put there while it is read, so what is reported is what a reader from left to right meets first.

All of this is assumed of the package `serde_json`, built with its option for raw values: that its
values are read so wherever the program asks for one, and that the key is the one below.
-/

namespace DocTree.Json

open Reading

/-- The key that says that an object stands for the value of a text. -/
def embeddedKey : String := "$serde_json::private::RawValue"

/-- Why an object stands for no value. -/
inductive EmbeddedFault where
  /-- There is another value in place of the text. -/
  | notText (found : Head)
  /-- The text is not well formed. -/
  | unreadable (fault : TextFault)
  /-- The object has other members beside the text. -/
  | otherMembers (count : Nat)

/-- The text of the fault.  An embedded text is not at hand, so its fault is told in full. -/
def EmbeddedFault.message : EmbeddedFault → String
  | notText found => found.wrongType "raw value"
  | unreadable fault => fault.describe
  | otherMembers count =>
    "invalid length " ++ String.ofList (Nat.toDigits 10 count) ++ ", expected 1 element in map"

/-- A fault inside of an embedded text is one of the text around it. -/
def EmbeddedFault.ofReadError : ReadError EmbeddedFault → EmbeddedFault
  | .unreadable fault => .unreadable fault
  | .refused fault => fault

/-! ### In a text -/

/-- The rest of an object behind the key of an embedded text, given what texts say. -/
def embeddedRest (say : String → Except EmbeddedFault Json) : Reading EmbeddedFault Json := do
  colon
  match ← token with
  | .string text =>
    match say text with
    | .error fault => refuse fault
    | .ok value =>
      skipBlanks
      match ← next .object with
      | '}' => return value
      | ',' => reject .trailingComma
      | _ => reject .trailingText
  | found => refuse (.notText found)

/-- The rest of an object behind its opening bracket, given what texts say and how the values of
members are read. -/
def resolvedRest (say : String → Except EmbeddedFault Json) (value : Reading EmbeddedFault Json) :
    Reading EmbeddedFault Json := do
  match ← firstKey with
  | none => return .object []
  | some key =>
    if key = embeddedKey then embeddedRest say
    else return .object (← laterMembers (collect value) (← member (collect value) [] key))

/-- A value in which at most `levels` containers are open at a time, given what texts say. -/
def resolvedValue (say : String → Except EmbeddedFault Json) : Nat → Reading EmbeddedFault Json
  | 0 => valueWith (fail .tooDeep) (fail .tooDeep)
  | levels + 1 =>
    valueWith (do return .array (← items (resolvedValue say levels)))
      (resolvedRest say (resolvedValue say levels))

/-- What a text of at most `size` characters says.  A text embedded in it is shorter, and a text
without characters says nothing. -/
def parseWithin : Nat → String → Except EmbeddedFault Json
  | 0, _ => .error (.unreadable (.endsIn .value))
  | size + 1, text =>
    (readAll (resolvedValue (parseWithin size) maxNesting) text).mapError .ofReadError

/-- What an embedded text says. -/
def parseEmbedded (text : String) : Except EmbeddedFault Json := parseWithin text.length text

/-! ### In a value -/

/-- The value under the first key of an object, if that is the key of an embedded text. -/
def embedded? : List (String × Json) → Option Json
  | [] => none
  | (key, value) :: _ => if key = embeddedKey then some value else none

mutual

/-- The value with the values of embedded texts put in. -/
def resolve : Json → Except EmbeddedFault Json
  | .array items => return .array (← resolveItems items)
  | .object members =>
    match embedded? members with
    | none => return .object (← resolveMembers members)
    | some (.string text) => do
      let value ← parseEmbedded text
      if 1 < members.length then .error (.otherMembers members.length) else return value
    | some found => .error (.notText found.head)
  | scalar => return scalar

/-- Every item resolved, in order. -/
def resolveItems : List Json → Except EmbeddedFault (List Json)
  | [] => return []
  | item :: rest => return (← resolve item) :: (← resolveItems rest)

/-- The value of every member resolved, in order. -/
def resolveMembers : List (String × Json) → Except EmbeddedFault (List (String × Json))
  | [] => return []
  | (key, value) :: rest => return (key, ← resolve value) :: (← resolveMembers rest)

end

end DocTree.Json
