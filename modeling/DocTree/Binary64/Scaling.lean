import DocTree.Binary64.Decimal

/-!
# Scaling doubles

A decimal can be read in steps: its digits as a natural number are taken to the nearest double, and
that is multiplied or divided by the double nearest to a power of ten (`Finite.scale?`).  Every step
rounds, so the outcome may be a neighbour of the double that is nearest to the decimal
(`Finite.ofDecimal?`), and a decimal next to the largest double may turn out too large, or not, though
it should not, or should.

The powers of ten up to 10³⁰⁸ are doubles.  By a smaller number than 10⁻³⁰⁸ a double is scaled in
several steps, which end once it is zero.
-/

namespace DocTree.Binary64.Finite

/-- The exponent of the largest power of ten that is taken for a double. -/
def tenPowLimit : Nat := 308

/-- The double nearest to a natural number; none if that is too large. -/
def ofNat? (n : Nat) : Option Finite := ofDecimal? false n 0

/-- The double nearest to a power of ten; none if that is too large. -/
def tenPow? (k : Nat) : Option Finite := ofDecimal? false 1 k

/-- The double nearest to the product of two magnitudes, with the sign of the first; none if that is
too large. -/
def times? (x y : Finite) : Option Finite := ofRatio? x.negative (x.steps * y.steps) stepsPerUnit

/-- The double nearest to the quotient of two magnitudes, with the sign of the first; none if that is
too large. -/
def over? (x y : Finite) : Option Finite := ofRatio? x.negative (x.steps * stepsPerUnit) y.steps

/-- Divides by the largest power of ten, as often as `rounds` says or until the number is zero, and
then by 10 to the power of `rest`. -/
def lower? (x : Finite) (rest : Nat) : Nat → Option Finite
  | 0 => (tenPow? rest).bind x.over?
  | rounds + 1 =>
    if x.steps = 0 then some x
    else ((tenPow? tenPowLimit).bind x.over?).bind fun y => lower? y rest rounds

/-- The number times a power of ten; none if it gets too large.  Zero stays what it is. -/
def scale? (x : Finite) (exponent : Int) : Option Finite :=
  if x.steps = 0 then some x
  else if 0 ≤ exponent then (tenPow? exponent.toNat).bind x.times?
  else
    let below := (-exponent).toNat - 1
    lower? x (below % tenPowLimit + 1) (below / tenPowLimit)

/-- The magnitude with the given sign. -/
def withSign (x : Finite) (negative : Bool) : Finite := { x with negative }

end DocTree.Binary64.Finite
