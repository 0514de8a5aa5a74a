import DocTree.Proofs.Json.Numeral
import Mathlib.Algebra.Order.Ring.Rat
import Mathlib.Tactic.Linarith

/-!
# Decimals as numbers

A decimal counts some units of 10⁻¹⁰⁷⁴ (`Decimal.inUnits`), not always a whole number of them, and its
exponent says between which powers of ten it is (`Decimal.Proper.bounds`).

Reading a decimal takes its units to the nearest magnitude of a double (`Decimal.reads_iff`).  The larger
of two numbers is not taken to less (`roundUnits_mono`), so what reads back as one double has no gaps.
-/

namespace DocTree

namespace Numeral

/-! ### Digits and powers of ten -/

theorem ofDigits_cons (c : Char) (digits : List Char) : ofDigits (c :: digits) =
    10 ^ digits.length * (c.toNat - '0'.toNat) + ofDigits digits := by
  show Nat.ofDigitChars 10 _ 0 = _
  rw [Nat.ofDigitChars_cons, Nat.mul_zero, Nat.zero_add]
  exact Nat.ofDigitChars_eq_ofDigitChars_zero

theorem ofDigits_concat (digits : List Char) (c : Char) :
    ofDigits (digits ++ [c]) = 10 * ofDigits digits + (c.toNat - '0'.toNat) := by
  show Nat.ofDigitChars 10 _ 0 = _
  rw [Nat.ofDigitChars_append, Nat.ofDigitChars_cons, Nat.ofDigitChars_nil]
  rfl

theorem digit_lt_ten {c : Char} (h : c.isDigit = true) : c.toNat - '0'.toNat < 10 := by
  have hbounds := Char.isDigit_iff_toNat.1 h
  simp only [Char.reduceToNat] at hbounds ⊢
  omega

theorem digit_pos {c : Char} (h : c.isDigit = true) (hzero : c ≠ '0') : 0 < c.toNat - '0'.toNat := by
  have hbounds := Char.isDigit_iff_toNat.1 h
  have hne : c.toNat ≠ '0'.toNat := fun heq => hzero (Char.toNat_inj.1 heq)
  simp only [Char.reduceToNat] at hbounds hne ⊢
  omega

theorem ofDigits_lt {digits : List Char} (h : ∀ c ∈ digits, c.isDigit = true) :
    ofDigits digits < 10 ^ digits.length := by
  induction digits with
  | nil => exact Nat.one_pos
  | cons c rest ih =>
    obtain ⟨hc, hrest⟩ := List.forall_mem_cons.1 h
    have hlt := ih hrest
    have hdigit := digit_lt_ten hc
    rw [ofDigits_cons, List.length_cons, Nat.pow_succ]
    calc 10 ^ rest.length * (c.toNat - '0'.toNat) + ofDigits rest
        < 10 ^ rest.length * (c.toNat - '0'.toNat + 1) := by
          rw [Nat.mul_succ]
          omega
      _ ≤ 10 ^ rest.length * 10 := Nat.mul_le_mul_left _ hdigit

theorem le_ofDigits {digits : List Char} (h : Digits digits) (hhead : digits.head? ≠ some '0') :
    10 ^ (digits.length - 1) ≤ ofDigits digits := by
  obtain ⟨c, rest, rfl⟩ := List.exists_cons_of_ne_nil h.1
  have hzero : c ≠ '0' := fun heq => hhead (congrArg some heq)
  have hdigit := digit_pos (h.2 c List.mem_cons_self) hzero
  rw [ofDigits_cons, List.length_cons, Nat.add_sub_cancel]
  calc 10 ^ rest.length ≤ 10 ^ rest.length * (c.toNat - '0'.toNat) := Nat.le_mul_of_pos_right _ hdigit
    _ ≤ _ := Nat.le_add_right _ _

/-- The number of digits of a number. -/
theorem toDigits_length_bounds {n : Nat} (h : 0 < n) :
    0 < (Nat.toDigits 10 n).length ∧ 10 ^ ((Nat.toDigits 10 n).length - 1) ≤ n ∧
      n < 10 ^ (Nat.toDigits 10 n).length := by
  have hdigits := digits_toDigits n
  have hle := le_ofDigits hdigits (head?_toDigits h)
  have hlt := ofDigits_lt hdigits.2
  rw [ofDigits_toDigits] at hle hlt
  exact ⟨List.length_pos_iff.2 hdigits.1, hle, hlt⟩

end Numeral

namespace Decimal

open Numeral

/-! ### The size of a decimal -/

/-- The power of ten that the last digit counts. -/
def lastPlace (d : Decimal) : Int := d.exponent + 1 - d.digits.length

/-- The decimal in units of 10⁻¹⁰⁷⁴. -/
def inUnits (d : Decimal) : ℚ :=
  ofDigits d.digits * (10 : ℚ) ^ (d.lastPlace + Binary64.unitExponent)

/-- Digits, the first of which is not zero. -/
structure Proper (d : Decimal) : Prop where
  digits : Digits d.digits
  head : d.digits.head? ≠ some '0'

variable {d : Decimal}

theorem Proper.length_pos (h : d.Proper) : 0 < d.digits.length := List.length_pos_iff.2 h.digits.1

theorem inUnits_nonneg (d : Decimal) : 0 ≤ d.inUnits :=
  mul_nonneg (Nat.cast_nonneg _) (zpow_nonneg (by norm_num) _)

theorem Proper.bounds (h : d.Proper) : (10 : ℚ) ^ (d.exponent + Binary64.unitExponent) ≤ d.inUnits ∧
    d.inUnits < (10 : ℚ) ^ (d.exponent + 1 + Binary64.unitExponent) := by
  have hpos := h.length_pos
  have hle : (10 : ℚ) ^ (d.digits.length - 1) ≤ ofDigits d.digits := by
    exact_mod_cast le_ofDigits h.digits h.head
  have hlt : (ofDigits d.digits : ℚ) < (10 : ℚ) ^ d.digits.length := by
    exact_mod_cast ofDigits_lt h.digits.2
  -- counted from the last place, the bounds are powers of ten by the number of digits
  have hfirst : d.exponent + Binary64.unitExponent =
      ((d.digits.length - 1 : Nat) : Int) + (d.lastPlace + Binary64.unitExponent) := by
    unfold lastPlace
    omega
  have hnext : d.exponent + 1 + Binary64.unitExponent =
      (d.digits.length : Int) + (d.lastPlace + Binary64.unitExponent) := by
    unfold lastPlace
    omega
  rw [hfirst, hnext, inUnits]
  generalize d.lastPlace + (Binary64.unitExponent : Int) = place
  have hscale : (0 : ℚ) < (10 : ℚ) ^ place := zpow_pos (by norm_num) _
  rw [zpow_add₀ (by norm_num), zpow_add₀ (by norm_num), zpow_natCast, zpow_natCast]
  exact ⟨mul_le_mul_of_nonneg_right hle hscale.le, mul_lt_mul_of_pos_right hlt hscale⟩

theorem Counts.proper {units : Nat} (h : d.Counts units) : d.Proper := ⟨h.digits, h.head⟩

theorem Counts.inUnits_eq {units : Nat} (h : d.Counts units) : d.inUnits = units := by
  obtain ⟨zeros, hunits, hzeros⟩ := h.units_eq
  have hplace : d.lastPlace + Binary64.unitExponent = zeros := by
    unfold lastPlace
    omega
  rw [inUnits, hplace, zpow_natCast, ← hunits]
  push_cast
  rfl

end Decimal

namespace Binary64.Finite

/-! ### Rounding -/

/-- The magnitude, in steps, of the double that is nearest to some units of 10⁻¹⁰⁷⁴. -/
def roundUnits (units : ℚ) : Nat := roundSteps units.num.natAbs (units.den * unitsPerStep)

variable {x : Finite}

theorem roundUnits_eq {units : ℚ} {num den : Nat} (hden : 0 < den) (h : units * den = num) :
    roundUnits units = roundSteps num (den * unitsPerStep) := by
  have hunits : units.num.natAbs * den = num * units.den := by
    have hq : (units.num : ℚ) * den = num * units.den := by
      rw [← h, mul_right_comm, Rat.mul_den_eq_num]
    have hint : units.num * (den : Int) = num * units.den := by exact_mod_cast hq
    have hnat := congrArg Int.natAbs hint
    simpa [Int.natAbs_mul] using hnat
  refine roundSteps_congr ?_ (Nat.mul_pos units.den_pos unitsPerStep_pos)
    (Nat.mul_pos hden unitsPerStep_pos)
  rw [← Nat.mul_assoc, hunits, Nat.mul_assoc]

theorem roundUnits_natCast (units : Nat) : roundUnits units = roundSteps units unitsPerStep := by
  have hone : (units : ℚ) * (1 : Nat) = units := by rw [Nat.cast_one, mul_one]
  rw [roundUnits_eq Nat.one_pos hone, Nat.one_mul]

/-- The larger of two numbers is not rounded to less. -/
theorem roundUnits_mono {a b : ℚ} (ha : 0 ≤ a) (h : a ≤ b) : roundUnits a ≤ roundUnits b := by
  refine roundSteps_mono ?_ (Nat.mul_pos a.den_pos unitsPerStep_pos)
    (Nat.mul_pos b.den_pos unitsPerStep_pos)
  have hnum : (a.num.natAbs : Int) * b.den ≤ b.num.natAbs * a.den := by
    rw [Int.natAbs_of_nonneg (Rat.num_nonneg.2 ha), Int.natAbs_of_nonneg (Rat.num_nonneg.2 (ha.trans h))]
    exact (Rat.le_iff a b).1 h
  have hnat : a.num.natAbs * b.den ≤ b.num.natAbs * a.den := by exact_mod_cast hnum
  rw [← Nat.mul_assoc, ← Nat.mul_assoc]
  exact Nat.mul_le_mul_right _ hnat

theorem roundUnits_units (x : Finite) : roundUnits x.units = x.steps := by
  rw [roundUnits_natCast, units, roundSteps_mul x.representable unitsPerStep_pos]

/-- What lies between a magnitude and something that is rounded to it is rounded to it. -/
theorem roundUnits_eq_of_between {a b : ℚ} (ha : 0 ≤ a) (hround : roundUnits a = x.steps)
    (h : a ≤ b ∧ b ≤ x.units ∨ x.units ≤ b ∧ b ≤ a) : roundUnits b = x.steps := by
  have hx := roundUnits_units x
  rcases h with ⟨hab, hbx⟩ | ⟨hxb, hba⟩
  · exact le_antisymm (hx ▸ roundUnits_mono (ha.trans hab) hbx) (hround ▸ roundUnits_mono ha hab)
  · have hb : 0 ≤ b := (Nat.cast_nonneg _).trans hxb
    exact le_antisymm (hround ▸ roundUnits_mono hb hba) (hx ▸ roundUnits_mono (Nat.cast_nonneg _) hxb)

theorem readsBack_iff_roundUnits {units : Nat} :
    x.readsBack units = true ↔ roundUnits units = x.steps := by
  rw [readsBack_iff, ofRatio?_eq_some_iff, roundUnits_natCast]
  exact ⟨fun h => h.2.symm, fun h => ⟨rfl, h.symm⟩⟩

end Binary64.Finite

namespace Decimal

open Binary64.Finite

theorem inUnits_mul (d : Decimal) :
    d.inUnits * (10 ^ (-(d.lastPlace + Binary64.unitExponent)).toNat : Nat) =
      (Numeral.ofDigits d.digits * 10 ^ (d.lastPlace + Binary64.unitExponent).toNat : Nat) := by
  rw [inUnits]
  generalize d.lastPlace + Binary64.unitExponent = place
  push_cast
  rw [mul_assoc, ← zpow_natCast, ← zpow_natCast, ← zpow_add₀ (by norm_num)]
  congr 2
  omega

/-- Reading a decimal is rounding what it counts. -/
theorem ofDecimal?_eq_some_iff {d : Decimal} {negative : Bool} {x : Binary64.Finite} :
    ofDecimal? negative (Numeral.ofDigits d.digits) d.lastPlace = some x ↔
      x.negative = negative ∧ x.steps = roundUnits d.inUnits := by
  have hplaces : d.lastPlace.toNat + Binary64.unitExponent +
      (-(d.lastPlace + Binary64.unitExponent)).toNat =
        (d.lastPlace + Binary64.unitExponent).toNat + (-d.lastPlace).toNat := by
    omega
  have hround : roundUnits d.inUnits = roundSteps
      (Numeral.ofDigits d.digits * 10 ^ d.lastPlace.toNat * Binary64.stepsPerUnit)
      (10 ^ (-d.lastPlace).toNat) := by
    rw [roundUnits_eq (Nat.pow_pos (by decide)) d.inUnits_mul]
    refine roundSteps_congr ?_ (Nat.mul_pos (Nat.pow_pos (by decide)) unitsPerStep_pos)
      (Nat.pow_pos (by decide))
    rw [Nat.mul_comm _ unitsPerStep, ← Nat.mul_assoc,
      Nat.mul_assoc _ Binary64.stepsPerUnit, stepsPerUnit_mul_unitsPerStep]
    simp only [Nat.mul_assoc, ← Nat.pow_add, hplaces]
  rw [ofDecimal?_eq_ofRatio?, ofRatio?_eq_some_iff, hround]

/-- What is read for the decimal, with the sign of the number, is the number. -/
def Reads (d : Decimal) (x : Binary64.Finite) : Prop :=
  ofDecimal? x.negative (Numeral.ofDigits d.digits) d.lastPlace = some x

theorem reads_iff {d : Decimal} {x : Binary64.Finite} : d.Reads x ↔ roundUnits d.inUnits = x.steps := by
  rw [Reads, ofDecimal?_eq_some_iff]
  exact ⟨fun h => h.2.symm, fun h => ⟨rfl, h.symm⟩⟩

end Decimal

end DocTree
