/-!
# Double precision numbers

A finite double is a whole number of *steps* of 2⁻¹⁰⁷⁴, the distance between zero and its
neighbours, with a sign: every finite double is such a multiple, and the multiples that are doubles
are those with at most 53 significant binary digits below 2²⁰⁹⁸ (`Binary64.Representable`).  So the
order, the equality and the conversions of doubles are questions about natural numbers, and `-0` is
zero steps with the sign kept.

`Binary64` adds the two infinities and the one value that is not a number.
-/

namespace DocTree

-- Powers are those of the core library, whatever other powers of numbers are in scope.
attribute [default_instance 20000, instance (2000)] instPowNat

/-- The power of two that a unit is in steps. -/
def Binary64.unitExponent : Nat := 1074

/-- The power of two that the first magnitude beyond the finite doubles, 2¹⁰²⁴, is in steps. -/
def Binary64.limitExponent : Nat := 2098

/-- The steps in one unit. -/
@[irreducible] def Binary64.stepsPerUnit : Nat := 2 ^ Binary64.unitExponent

/-- The first magnitude beyond the finite doubles, in steps. -/
@[irreducible] def Binary64.stepLimit : Nat := 2 ^ Binary64.limitExponent

theorem Binary64.stepsPerUnit_pos : 0 < Binary64.stepsPerUnit := by
  unfold Binary64.stepsPerUnit; exact Nat.two_pow_pos _

theorem Binary64.stepLimit_pos : 0 < Binary64.stepLimit := by
  unfold Binary64.stepLimit; exact Nat.two_pow_pos _

/-- The magnitudes of the finite doubles, counted in steps of 2⁻¹⁰⁷⁴: below the limit, and divisible
by the distance of two neighbours, which is 2 to the number of binary digits beyond the 53rd. -/
def Binary64.Representable (steps : Nat) : Prop :=
  steps < Binary64.stepLimit ∧ steps % 2 ^ (steps.log2 - 52) = 0

instance (steps : Nat) : Decidable (Binary64.Representable steps) :=
  inferInstanceAs (Decidable (_ ∧ _))

theorem Binary64.representable_zero : Binary64.Representable 0 :=
  ⟨Binary64.stepLimit_pos, Nat.zero_mod _⟩

/-- A finite double: its sign, and its magnitude in steps of 2⁻¹⁰⁷⁴. -/
structure Binary64.Finite where
  /-- Whether the number carries the minus sign; `-0` does. -/
  negative : Bool
  /-- The magnitude, in steps of 2⁻¹⁰⁷⁴. -/
  steps : Nat
  representable : Binary64.Representable steps
  deriving DecidableEq

/-- A double: finite, infinite, or not a number. -/
inductive Binary64 where
  | finite (x : Binary64.Finite)
  | infinite (negative : Bool)
  | notANumber
  deriving DecidableEq

namespace Binary64.Finite

/-- Zero with the given sign. -/
def zero (negative : Bool) : Finite := ⟨negative, 0, representable_zero⟩

instance : Inhabited Finite := ⟨zero false⟩

/-- The number of steps with its sign; both zeros have the value `0`. -/
def value (x : Finite) : Int := if x.negative then -(x.steps : Int) else x.steps

/-- Whether the number is an integer. -/
def isInteger (x : Finite) : Bool := x.steps % stepsPerUnit == 0

/-- The integer part of the magnitude. -/
def whole (x : Finite) : Nat := x.steps / stepsPerUnit

/-- Equality of the numbers: the two zeros are equal. -/
def sameNumber (x y : Finite) : Bool := x.value == y.value

theorem sameNumber_iff {x y : Finite} : x.sameNumber y = true ↔ x.value = y.value := by
  simp [sameNumber]

end Binary64.Finite

namespace Binary64

/-- Equality of the numbers: the two zeros are equal, and what is not a number equals nothing. -/
def sameNumber : Binary64 → Binary64 → Bool
  | finite x, finite y => x.sameNumber y
  | infinite s, infinite t => s == t
  | _, _ => false

/-- Whether the number is zero, of either sign. -/
def isZero : Binary64 → Bool
  | finite x => x.steps == 0
  | _ => false

end Binary64

end DocTree
