import DocTree.Binary64.Scaling
import DocTree.Json.Basic
import DocTree.Reading

/-!
# Numerals

The decimal notation of numbers: digits, an optional fraction and an optional power of ten.  What
a numeral denotes depends on its form: without fraction and exponent it is an integer if it fits
64 bits, in every other case a double, and nothing if that would be infinite.  Minus zero is a
double, since no integer has that sign.

Which double a numeral denotes is a matter of its own.  By the notation it is the nearest one
(`Numeral.nearest?`).  The package `serde_json`, in the precision it has by default, takes up the
digits as long as they fit 64 bits, leaves out the others, and scales this number by a power of ten
(`Numeral.toFinite?`).  That is assumed of the package: every number of a text, strict or relaxed, is
read so, and a number is refused just if a step of this is too large for a double.  Of most numerals
with few digits it is the nearest double, but not of all: `1e-23` is read as 1.0000000000000001e-23,
and 1.7976931348623158e308 is refused though the nearest double is finite.
-/

namespace DocTree

/-- A decimal numeral, taken apart. -/
structure Numeral where
  negative : Bool
  /-- The digits before the point. -/
  whole : List Char
  /-- The digits behind the point. -/
  fraction : List Char
  /-- The written power of ten. -/
  exponent : Int
  /-- Whether there is neither a point nor a power of ten. -/
  plain : Bool
  deriving DecidableEq

/-- The number that decimal digits denote. -/
def Numeral.ofDigits (digits : List Char) : Nat :=
  digits.foldl (fun n c => 10 * n + (c.toNat - '0'.toNat)) 0

namespace Numeral

/-- The double nearest to the numeral; none if it is too large. -/
def nearest? (n : Numeral) : Option Binary64.Finite :=
  Binary64.Finite.ofDecimal? n.negative (ofDigits (n.whole ++ n.fraction))
    (n.exponent - n.fraction.length)

/-- Takes up digits behind those of a number as long as it fits 64 bits, and gives the digits that are
left. -/
def takeUp (number : Nat) : List Char → Nat × List Char
  | [] => (number, [])
  | c :: rest =>
    let next := 10 * number + (c.toNat - '0'.toNat)
    if next < 2 ^ 64 then takeUp next rest else (number, c :: rest)

/-- The digits that fit 64 bits, as a number, and the power of ten that belongs to it.  Behind the
point digits are taken up again, even if some before it did not fit. -/
def significand (n : Numeral) : Nat × Int :=
  let (whole, skipped) := takeUp 0 n.whole
  let (number, dropped) := takeUp whole n.fraction
  (number, n.exponent + skipped.length - (n.fraction.length - dropped.length))

/-- The double that is read for the numeral, its digits as a double scaled by a power of ten; none if
that is too large. -/
def toFinite? (n : Numeral) : Option Binary64.Finite := do
  let magnitude ← Binary64.Finite.ofNat? n.significand.1
  return (← magnitude.scale? n.significand.2).withSign n.negative

/-- The value of the numeral without its fraction and its power of ten. -/
def toInt (n : Numeral) : Int :=
  if n.negative then -(ofDigits n.whole : Int) else ofDigits n.whole

/-- The number that the numeral denotes, given which double it is if it is no integer; none if it is
too large. -/
def toJsonBy? (round : Numeral → Option Binary64.Finite) (n : Numeral) : Option Json :=
  if n.plain && !(n.negative && n.toInt == 0) then
    match Json.Integer.ofInt? n.toInt with
    | some i => some (.integer i)
    | none => (round n).map .float
  else (round n).map .float

/-- The number that is read for the numeral; none if it is too large. -/
abbrev toJson? (n : Numeral) : Option Json := n.toJsonBy? toFinite?

/-! ### Reading -/

variable {Reason : Type}

/-- At least one digit. -/
def someDigits : Reading Reason (List Char) := do
  let first ← Reading.next .value
  if first.isDigit then return first :: (← Reading.takeWhile Char.isDigit)
  else Reading.reject .badNumber

/-- The digits before the point: a lone zero, or digits that do not begin with a zero. -/
def wholeDigits : Reading Reason (List Char) := do
  let first ← Reading.next .value
  if first = '0' then return [first]
  else if first.isDigit then return first :: (← Reading.takeWhile Char.isDigit)
  else Reading.reject .badNumber

/-- The fraction, if a point follows. -/
def optionalFraction : Reading Reason (Option (List Char)) := do
  match ← Reading.takeIf ['.'] with
  | none => return none
  | some _ => return some (← someDigits)

/-- The power of ten, if its mark follows. -/
def optionalExponent : Reading Reason (Option Int) := do
  match ← Reading.takeIf ['e', 'E'] with
  | none => return none
  | some _ =>
    let sign ← Reading.takeIf ['-', '+']
    let digits ← someDigits
    return some (if sign = some '-' then -(ofDigits digits : Int) else ofDigits digits)

/-- A numeral behind its sign, given how the digits before the point are read. -/
def unsigned (negative : Bool) (whole : Reading Reason (List Char)) : Reading Reason Numeral := do
  let whole ← whole
  let fraction ← optionalFraction
  let exponent ← optionalExponent
  return {
    negative, whole
    fraction := fraction.getD []
    exponent := exponent.getD 0
    plain := fraction.isNone && exponent.isNone }

end Numeral

end DocTree
