import DocTree.Json.Basic

/-!
# Property values

The value of an element's property: a scalar, a list of strings and numbers, or null.  Rules never
look at the type of a value; they ask whether it counts as present (`PropertyValue.isPresent`) and
for its text (`PropertyValue.text`), both of which are defined for every value as a scripting host
converts it.

In JSON all numbers of properties are doubles: an integer of at most 53 bits is written without a
point, any other finite number in the form of a double, and what JSON cannot write as null.
-/

namespace DocTree

/-- An entry of a list-valued property. -/
inductive PropertyItem where
  | number (x : Binary64)
  | string (s : String)
  deriving DecidableEq

/-- The value of a property. -/
inductive PropertyValue where
  | boolean (b : Bool)
  | number (x : Binary64)
  | string (s : String)
  | list (items : List PropertyItem)
  | null
  deriving DecidableEq

/-! ### Text -/

/-- The written form of a number in a text: all its digits in place, and no point behind an
integer. -/
def PropertyValue.textLayout : Layout where
  tie := .up
  positional := fun _ => true
  wholePoint := false

/-- A number as text; the zeros of both signs have one text. -/
def PropertyValue.numberText (x : Binary64) : String :=
  if x.isZero then "0"
  else match x with
    | .finite x => String.ofList (textLayout.write x)
    | .infinite false => "Infinity"
    | .infinite true => "-Infinity"
    | .notANumber => "NaN"

/-- A list item as text. -/
def PropertyItem.text : PropertyItem → String
  | number x => PropertyValue.numberText x
  | string s => s

namespace PropertyValue

/-- The value as text: null is empty, and the items of a list are joined by commas. -/
def text : PropertyValue → String
  | boolean b => if b then "true" else "false"
  | number x => numberText x
  | string s => s
  | list items => String.intercalate "," (items.map PropertyItem.text)
  | null => ""

/-- The string, if the value is one. -/
def string? : PropertyValue → Option String
  | string s => some s
  | _ => none

/-- Whether the value counts as present: `false`, zero, what is not a number, the empty string and
null do not; every list does. -/
def isPresent : PropertyValue → Bool
  | boolean b => b
  | number .notANumber => false
  | number x => !x.isZero
  | string s => s != ""
  | list _ => true
  | null => false

/-! ### Equality -/

/-- Equality of items, numbers by their value. -/
def sameItem : PropertyItem → PropertyItem → Bool
  | .number x, .number y => x.sameNumber y
  | .string s, .string t => s == t
  | _, _ => false

/-- Equality of lists, item by item. -/
def sameItems : List PropertyItem → List PropertyItem → Bool
  | [], [] => true
  | a :: as, b :: bs => sameItem a b && sameItems as bs
  | _, _ => false

/-- Equality of values, numbers by their value: the zeros are equal, and what is not a number equals
nothing. -/
def same : PropertyValue → PropertyValue → Bool
  | boolean a, boolean b => a == b
  | number x, number y => x.sameNumber y
  | string s, string t => s == t
  | list a, list b => sameItems a b
  | null, null => true
  | _, _ => false

/-! ### JSON -/

/-- The largest integer up to which every integer is a double of its own. -/
def integerLimit : Nat := 2 ^ 53 - 1

theorem inRange_of_le {n : Nat} (negative : Bool) (h : n ≤ integerLimit) :
    -2 ^ 63 ≤ (if negative then -(n : Int) else n) ∧
      (if negative then -(n : Int) else n) < 2 ^ 64 := by
  simp only [integerLimit] at h
  split <;> omega

/-- A number of a property in JSON. -/
def numberToJson : Binary64 → Json
  | .finite x =>
    if h : x.isInteger = true ∧ x.whole ≤ integerLimit then
      .integer ⟨if x.negative then -(x.whole : Int) else x.whole, inRange_of_le x.negative h.2⟩
    else .float x
  | _ => .null

/-- A list item in JSON. -/
def itemToJson : PropertyItem → Json
  | .number x => numberToJson x
  | .string s => .string s

/-- The value in JSON. -/
def toJson : PropertyValue → Json
  | boolean b => .bool b
  | number x => numberToJson x
  | string s => .string s
  | list items => .array (items.map itemToJson)
  | null => .null

/-- The double nearest to a number in JSON; none for a value that is no number. -/
def numberOfJson? : Json → Option Binary64
  | .integer n => some (.ofInt n.val)
  | .float x => some (.finite x)
  | _ => none

/-- The list item that a JSON value says, if it says one. -/
def itemOfJson? : Json → Option PropertyItem
  | .string s => some (.string s)
  | j => (numberOfJson? j).map .number

/-- The property value that a JSON value says, if it says one: objects say none, nor do arrays with
anything but strings and numbers in them. -/
def ofJson? : Json → Option PropertyValue
  | .null => some .null
  | .bool b => some (.boolean b)
  | .string s => some (.string s)
  | .array items => (items.mapM itemOfJson?).map .list
  | j => (numberOfJson? j).map .number

end PropertyValue

end DocTree
