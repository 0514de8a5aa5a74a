import DocTree.Binary64.Basic

/-!
# Doubles and decimals

Reading: a decimal denotes the double nearest to it, of two equally near ones the one whose last
binary digit is even (`Finite.ofDecimal?`); a decimal too large for every double has none.

Writing: `Finite.shortest` gives the fewest digits that read back as the number.  Five to the
1074th turns a number of steps into a number of units of 10⁻¹⁰⁷⁴, so the value and every decimal
near it are natural numbers of one unit and are compared exactly.  For 1, 2, … 17 digits the two
neighbours of the value among the decimals of that many digits are tried: if any decimal between
the value's midpoints to the adjacent doubles has that many digits, one of those two has.
-/

namespace DocTree

/-- Which of two equally near numbers is chosen. -/
inductive Tie where
  /-- The one whose last digit is even. -/
  | toEven
  /-- The larger magnitude. -/
  | up
  deriving DecidableEq

namespace Binary64.Finite

/-! ### Reading -/

/-- The quotient rounded to the nearest natural number, of two equally near ones to the even one. -/
def divNearest (num den : Nat) : Nat :=
  let quotient := num / den
  let rest := 2 * (num % den)
  if den < rest ∨ (rest = den ∧ quotient % 2 = 1) then quotient + 1 else quotient

/-- A ratio of steps rounded to 53 significant binary digits, and to whole steps. -/
def roundSteps (num den : Nat) : Nat :=
  let spacing := 2 ^ ((num / den).log2 - 52)
  divNearest num (den * spacing) * spacing

/-- The double nearest to a ratio of steps; none if the ratio rounds beyond the finite doubles. -/
def ofRatio? (negative : Bool) (num den : Nat) : Option Finite :=
  let steps := roundSteps num den
  if h : Representable steps then some ⟨negative, steps, h⟩ else none

/-- The double nearest to `digits · 10^exponent`; none if that is too large for a finite double.
A power of ten that settles the answer whatever the digits are is not computed: from 10³⁰⁹ on
nothing is finite, and below half a step everything is zero. -/
def ofDecimal? (negative : Bool) (digits : Nat) (exponent : Int) : Option Finite :=
  if digits = 0 then some (zero negative)
  else if 309 ≤ exponent then none
  else if digits.log2 + unitExponent + 2 ≤ 3 * (-exponent).toNat then some (zero negative)
  else ofRatio? negative (digits * 10 ^ exponent.toNat * stepsPerUnit) (10 ^ (-exponent).toNat)

/-! ### Writing -/

/-- The units of 10⁻¹⁰⁷⁴ in one step. -/
@[irreducible] def unitsPerStep : Nat := 5 ^ unitExponent

/-- The magnitude in units of 10⁻¹⁰⁷⁴. -/
def units (x : Finite) : Nat := x.steps * unitsPerStep

/-- Whether a magnitude in units of 10⁻¹⁰⁷⁴ reads back as the number. -/
def readsBack (x : Finite) (units : Nat) : Bool :=
  ofRatio? x.negative units unitsPerStep == some x

/-- One of the two multiples of `grid` around a magnitude, given which of them may be taken: the
nearer one if both may, and by `tie` if they are equally near. -/
def pickNeighbour? (tie : Tie) (units grid : Nat) (belowFits aboveFits : Bool) : Option Nat :=
  let below := units / grid * grid
  let above := below + grid
  match belowFits, aboveFits with
  | false, false => none
  | true, false => some below
  | false, true => some above
  | true, true =>
    if units - below < above - units then some below
    else if above - units < units - below then some above
    else match tie with
      | .toEven => if units / grid % 2 = 0 then some below else some above
      | .up => some above

/-- The neighbour of the number among the multiples of `grid` units that reads back as it. -/
def onGrid? (tie : Tie) (x : Finite) (grid : Nat) : Option Nat :=
  pickNeighbour? tie x.units grid (x.readsBack (x.units / grid * grid))
    (x.readsBack (x.units / grid * grid + grid))

/-- The magnitude of the shortest decimal that reads back, in units of 10⁻¹⁰⁷⁴.  The value itself,
with all its digits, stands last in the search. -/
def shortestUnits (tie : Tie) (x : Finite) : Nat :=
  let width := (Nat.toDigits 10 x.units).length
  ((List.range' 1 17).findSome? fun digits => x.onGrid? tie (10 ^ (width - digits))).getD x.units

end Binary64.Finite

/-- The double nearest to an integer, infinite if the integer is too large. -/
def Binary64.ofInt (n : Int) : Binary64 :=
  match Finite.ofDecimal? (n < 0) n.natAbs 0 with
  | some x => finite x
  | none => infinite (n < 0)

/-- A positive decimal: its digits from the first to the last that is not zero, and the power of ten
that the first one counts. -/
structure Decimal where
  digits : List Char
  exponent : Int
  deriving DecidableEq

/-- The decimal of a number of units of 10⁻¹⁰⁷⁴. -/
def Decimal.ofUnits (units : Nat) : Decimal :=
  let digits := Nat.toDigits 10 units
  { digits := (digits.reverse.dropWhile (· == '0')).reverse
    exponent := (digits.length : Int) - (Binary64.unitExponent + 1) }

/-- The shortest decimal that reads back as the magnitude of the number. -/
def Binary64.Finite.shortest (tie : Tie) (x : Finite) : Decimal :=
  .ofUnits (x.shortestUnits tie)

end DocTree
