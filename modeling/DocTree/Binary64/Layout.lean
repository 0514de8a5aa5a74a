import DocTree.Binary64.Decimal

/-!
# Written forms of doubles

A `Layout` holds the decisions of one written form: how ties between shortest decimals go, which
exponents are written positionally, and whether an integer keeps `.0`.  The digits themselves are
those of `Finite.shortest` in every form.
-/

namespace DocTree

/-- How a finite double is written. -/
structure Layout where
  /-- The choice between two shortest decimals that are equally near. -/
  tie : Tie
  /-- The exponents of the first digit that are written without a power of ten. -/
  positional : Int → Bool
  /-- Whether an integer is written with `.0`. -/
  wholePoint : Bool

namespace Decimal

/-- The digits with a decimal point among them and without a power of ten. -/
def positional (wholePoint : Bool) (d : Decimal) : List Char :=
  if d.exponent < 0 then
    '0' :: '.' :: List.replicate ((-d.exponent).toNat - 1) '0' ++ d.digits
  else
    let places := d.exponent.toNat + 1
    let whole := (d.digits.take places).rightpad places '0'
    match d.digits.drop places with
    | [] => if wholePoint then whole ++ ['.', '0'] else whole
    | fraction => whole ++ '.' :: fraction

/-- One digit, the others behind a point, and the power of ten with its sign. -/
def scientific (d : Decimal) : List Char :=
  let mantissa := match d.digits with
    | [] => []
    | [first] => [first]
    | first :: rest => first :: '.' :: rest
  mantissa ++ 'e' :: (if d.exponent < 0 then '-' else '+') :: Nat.toDigits 10 d.exponent.natAbs

variable {d : Decimal} {wholePoint : Bool}

theorem positional_of_neg (h : d.exponent < 0) : d.positional wholePoint =
    '0' :: '.' :: (List.replicate ((-d.exponent).toNat - 1) '0' ++ d.digits) :=
  if_pos h

theorem positional_of_whole (h : ¬ d.exponent < 0) (hlong : d.digits.length ≤ d.exponent.toNat + 1) :
    d.positional wholePoint = d.digits ++
      (List.replicate (d.exponent.toNat + 1 - d.digits.length) '0' ++
        if wholePoint then ['.', '0'] else []) := by
  rw [positional, if_neg h]
  simp only [List.take_of_length_le hlong, List.drop_eq_nil_of_le hlong, List.rightpad]
  cases wholePoint <;> simp

theorem positional_of_split (h : ¬ d.exponent < 0) (hlt : d.exponent.toNat + 1 < d.digits.length) :
    d.positional wholePoint = d.digits.take (d.exponent.toNat + 1) ++
      '.' :: d.digits.drop (d.exponent.toNat + 1) := by
  have hwhole : (d.digits.take (d.exponent.toNat + 1)).rightpad (d.exponent.toNat + 1) '0' =
      d.digits.take (d.exponent.toNat + 1) := by
    simp [List.rightpad, Nat.min_eq_left (Nat.le_of_lt hlt)]
  rw [positional, if_neg h]
  simp only [hwhole]
  cases hdrop : d.digits.drop (d.exponent.toNat + 1) with
  | nil => exact absurd (List.drop_eq_nil_iff.1 hdrop) (Nat.not_le.2 hlt)
  | cons c rest => rfl

end Decimal

namespace Layout

/-- The magnitude of a number, written. -/
def magnitude (l : Layout) (x : Binary64.Finite) : List Char :=
  if x.steps = 0 then
    if l.wholePoint then ['0', '.', '0'] else ['0']
  else
    let d := x.shortest l.tie
    if l.positional d.exponent then d.positional l.wholePoint else d.scientific

/-- The number, written. -/
def write (l : Layout) (x : Binary64.Finite) : List Char :=
  if x.negative then '-' :: l.magnitude x else l.magnitude x

end Layout

end DocTree
