import DocTree.Proofs.Binary64.Scaling

/-!
# Numbers that are read in steps

As long as the digits of a numeral fit 64 bits, all of them are taken up (`significand_eq`).  So it is
with the numeral that is written for a double, which has at most seventeen digits, zeros behind them
included (`Written.Shows.digits_le`).  For each of these a double is read
(`Written.Shows.exists_toFinite?`), though it may be another one than was written.  With at most fifteen
digits and a small power of ten it is the nearest one (`toFinite?_eq_nearest?`).
-/

namespace DocTree

open Binary64.Finite

/-- At most fifteen digits, the first no more than thirteen places before the point, and the last no more
than twenty-two behind it. -/
structure Decimal.IsShort (d : Decimal) : Prop where
  few : d.digits.length ≤ 15
  first : d.exponent ≤ 13
  last : -22 ≤ d.lastPlace

namespace Numeral

/-! ### Digits that fit -/

/-- A number does not get smaller by digits behind it. -/
theorem le_ofDigitChars (digits : List Char) (number : Nat) :
    number ≤ Nat.ofDigitChars 10 digits number := by
  rw [Nat.ofDigitChars_eq_ofDigitChars_zero]
  exact Nat.le_add_right_of_le (Nat.le_mul_of_pos_left _ (Nat.pow_pos (by decide)))

theorem takeUp_eq {digits : List Char} {number : Nat}
    (h : Nat.ofDigitChars 10 digits number < 2 ^ 64) :
    takeUp number digits = (Nat.ofDigitChars 10 digits number, []) := by
  induction digits generalizing number with
  | nil => rfl
  | cons c digits ih =>
    have hnext : 10 * number + (c.toNat - '0'.toNat) < 2 ^ 64 := (le_ofDigitChars digits _).trans_lt h
    simp only [takeUp, if_pos hnext]
    exact ih h

variable {n : Numeral}

/-- Digits that fit 64 bits are taken up before and behind the point. -/
theorem significand_eq (h : ofDigits (n.whole ++ n.fraction) < 2 ^ 64) :
    n.significand = (ofDigits (n.whole ++ n.fraction), n.exponent - n.fraction.length) := by
  have happend : ofDigits (n.whole ++ n.fraction) =
      Nat.ofDigitChars 10 n.fraction (Nat.ofDigitChars 10 n.whole 0) := Nat.ofDigitChars_append 0
  rw [happend] at h ⊢
  have hwhole : Nat.ofDigitChars 10 n.whole 0 < 2 ^ 64 := (le_ofDigitChars n.fraction _).trans_lt h
  simp [significand, takeUp_eq hwhole, takeUp_eq h]

/-- What is read for a numeral is its number, scaled, with its sign. -/
theorem toFinite?_eq_map {x : Binary64.Finite} (hx : ofNat? n.significand.1 = some x) :
    n.toFinite? = (x.scale? n.significand.2).map (·.withSign n.negative) := by
  rw [toFinite?, hx, Option.map_eq_bind]
  rfl

/-- **Few digits and a small power of ten are read as the nearest double.** -/
theorem toFinite?_eq_nearest? (few : ofDigits (n.whole ++ n.fraction) ≤ 2 ^ 53)
    (small : (n.exponent - n.fraction.length).natAbs < 23) : n.toFinite? = n.nearest? := by
  have hsignificand := significand_eq (few.trans_lt (by decide))
  obtain ⟨x, hx⟩ := exists_ofNat? (few.trans (by decide +kernel))
  rw [toFinite?_eq_map (by rw [hsignificand, hx]), hsignificand, scale?_eq_ofRatio? few small hx,
    map_withSign_ofRatio?, nearest?, ofDecimal?_eq_ofRatio?]

/-! ### Written doubles -/

/-- The digits of a numeral with a decimal are no more than the decimal has, with the zeros behind
them. -/
theorem Says.digits_le_pow {d : Decimal} {zeros units width : Nat} (h : n.Says d zeros)
    (hd : d.Counts units) (few : d.digits.length + zeros ≤ width) :
    ofDigits (n.whole ++ n.fraction) ≤ 10 ^ width :=
  calc ofDigits (n.whole ++ n.fraction) = ofDigits d.digits * 10 ^ zeros := h.digits
    _ ≤ 10 ^ d.digits.length * 10 ^ zeros := Nat.mul_le_mul_right _ (ofDigits_lt hd.digits.2).le
    _ = 10 ^ (d.digits.length + zeros) := (Nat.pow_add ..).symm
    _ ≤ 10 ^ width := Nat.pow_le_pow_right (by decide) few

/-- A numeral with the decimal of some units is not above the largest double if the units are not. -/
theorem Says.le_largestWhole {d : Decimal} {zeros units : Nat} (h : n.Says d zeros)
    (hd : d.Counts units) (few : d.digits.length + zeros ≤ 17)
    (small : units ≤ largestWhole * 10 ^ Binary64.unitExponent) :
    ofDigits (n.whole ++ n.fraction) * 10 ^ (n.exponent - n.fraction.length).toNat ≤
      largestWhole := by
  obtain ⟨behind, hunits, hbehind⟩ := hd.units_eq
  rcases Int.le_total (n.exponent - n.fraction.length) 0 with hneg | hpos
  · rw [Int.toNat_of_nonpos hneg, Nat.pow_zero, Nat.mul_one]
    exact (h.digits_le_pow hd few).trans (by decide +kernel)
  · obtain ⟨places, hplaces⟩ := Int.eq_ofNat_of_zero_le hpos
    have hplace := h.place
    -- the zeros behind the digits count in the units as well
    have hsum : zeros + places + Binary64.unitExponent = behind := by omega
    rw [hplaces, Int.toNat_natCast, h.digits, Nat.mul_assoc, ← Nat.pow_add]
    have hunit : 0 < 10 ^ Binary64.unitExponent := Nat.pow_pos (by decide)
    refine Nat.le_of_mul_le_mul_right ?_ hunit
    calc ofDigits d.digits * 10 ^ (zeros + places) * 10 ^ Binary64.unitExponent = units := by
          rw [Nat.mul_assoc, ← Nat.pow_add, hsum, hunits]
      _ ≤ largestWhole * 10 ^ Binary64.unitExponent := small

theorem positional_floatLayout_iff {exponent : Int} :
    Json.floatLayout.positional exponent = true ↔ -5 ≤ exponent ∧ exponent ≤ 15 := by
  simp only [Json.floatLayout, Bool.and_eq_true, decide_eq_true_eq]

namespace Written.Shows

variable {x : Binary64.Finite} {w : Written}

/-- The digits of a written double are no more than seventeen, and not above the largest double. -/
theorem digits_le (h : w.Shows Json.floatLayout x) (negative : Bool) :
    let n := w.toNumeral negative
    ofDigits (n.whole ++ n.fraction) ≤ 10 ^ 17 ∧ ofDigits (n.whole ++ n.fraction) *
      10 ^ (n.exponent - n.fraction.length).toNat ≤ largestWhole := by
  intro n
  cases h with
  | zero _ hw =>
    subst hw
    exact ⟨Nat.zero_le _, Nat.zero_le _⟩
  | digits hx zeros tells few =>
    have htie : Json.floatLayout.tie = .toEven := rfl
    rw [htie] at tells few
    have hlength := length_shortest_le .toEven hx
    -- without a power of ten there are at most sixteen places before the point and a zero behind it
    have htotal : (x.shortest .toEven).digits.length + zeros ≤ 17 := by
      rcases few with hzero | ⟨hpositional, htotal⟩
      · omega
      · have hexponent := (positional_floatLayout_iff.1 hpositional).2
        omega
    have hcounts := counts_shortest .toEven hx
    exact ⟨(tells negative).digits_le_pow hcounts htotal,
      (tells negative).le_largestWhole hcounts htotal (shortestUnits_le x)⟩

/-- **A double is read for what is written for a double.** -/
theorem exists_toFinite? (h : w.Shows Json.floatLayout x) (negative : Bool) :
    ∃ y, (w.toNumeral negative).toFinite? = some y := by
  obtain ⟨few, small⟩ := h.digits_le negative
  obtain ⟨y, z, hy, hz⟩ := exists_scale? few small
  have hsignificand := significand_eq (few.trans_lt (by decide))
  refine ⟨z.withSign negative, ?_⟩
  rw [toFinite?_eq_map (by rw [hsignificand, hy]), hsignificand, hz]
  rfl

/-- **A short decimal is read as the double that it is written for.** -/
theorem toFinite?_eq (h : w.Shows Json.floatLayout x)
    (hshort : x.steps ≠ 0 → (x.shortest .toEven).IsShort) :
    (w.toNumeral x.negative).toFinite? = some x := by
  rw [← h.nearest?_eq]
  cases h with
  | zero _ hw =>
    subst hw
    exact toFinite?_eq_nearest? (Nat.zero_le _) (show ((0 : Int) - 1).natAbs < 23 by decide)
  | digits hx zeros tells few =>
    obtain ⟨hfew, hfirst, hlast⟩ := hshort hx
    unfold Decimal.lastPlace at hlast
    have htie : Json.floatLayout.tie = .toEven := rfl
    rw [htie] at tells few
    have htotal : (x.shortest .toEven).digits.length + zeros ≤ 15 := by
      rcases few with hzero | ⟨-, htotal⟩
      · omega
      · omega
    have hdigits := (tells x.negative).digits_le_pow (counts_shortest .toEven hx) htotal
    refine toFinite?_eq_nearest? (hdigits.trans (by decide)) ?_
    rw [(tells x.negative).place]
    rcases few with hzero | ⟨-, htotal⟩
    · omega
    · omega

end Written.Shows

end Numeral

end DocTree
