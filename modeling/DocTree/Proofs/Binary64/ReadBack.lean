import DocTree.Binary64.Layout
import DocTree.Json.Numeral
import DocTree.Proofs.Binary64.Rounding

/-!
# Decimals that read back

The shortest decimal of a double reads back as it (`readsBack_shortestUnits`): the search for it
tries every candidate before it takes it, and what stands last in the search, the magnitude with all
its digits, is a decimal that is not rounded.  A numeral may write that decimal in any way, with zeros
before or behind its digits and with a power of ten (`ofDecimal?_of_units`), since reading depends on
the ratio alone and its shortcuts give what the ratio gives (`ofDecimal?_eq_ofRatio?`).

To read a decimal here is to take the nearest double.  The numbers of a text are read in steps, which
may give another one (`DocTree.Binary64.Scaling`).
-/

namespace DocTree

namespace Binary64.Finite

/-! ### Reading by ratios -/

/-- Ninety-three binary digits are no more than twenty-eight decimal ones. -/
theorem two_pow_le_ten_pow {k e : Nat} (a : Nat) (hk : k ≤ 93 * a + 1) (he : 28 * a + 1 ≤ e) :
    2 ^ k ≤ 10 ^ e := by
  have h28 : 2 ^ 93 ≤ 10 ^ 28 := by decide
  calc 2 ^ k ≤ 2 ^ (93 * a + 1) := Nat.pow_le_pow_right (by decide) hk
    _ = (2 ^ 93) ^ a * 2 := by rw [← Nat.pow_mul, ← Nat.pow_succ]
    _ ≤ (10 ^ 28) ^ a * 10 := Nat.mul_le_mul (Nat.pow_le_pow_left h28 a) (by decide)
    _ = 10 ^ (28 * a + 1) := by rw [← Nat.pow_mul, ← Nat.pow_succ]
    _ ≤ 10 ^ e := Nat.pow_le_pow_right (by decide) he

/-- From 10³⁰⁹ on nothing is finite. -/
theorem ofRatio?_of_large (negative : Bool) {digits e : Nat} (hd : 0 < digits) (he : 309 ≤ e) :
    ofRatio? negative (digits * 10 ^ e * stepsPerUnit) 1 = none := by
  have hunits : limitExponent - unitExponent ≤ 93 * 11 + 1 := by decide
  have hbig : 2 ^ limitExponent ≤ digits * 10 ^ e * stepsPerUnit / 1 := by
    rw [Nat.div_one]
    unfold stepsPerUnit
    calc 2 ^ limitExponent = 1 * 2 ^ (limitExponent - unitExponent) * 2 ^ unitExponent := by
          rw [Nat.one_mul, ← Nat.pow_add, Nat.sub_add_cancel (by decide)]
      _ ≤ digits * 10 ^ e * 2 ^ unitExponent :=
        Nat.mul_le_mul_right _ (Nat.mul_le_mul hd (two_pow_le_ten_pow 11 hunits he))
  have hn : ¬ Representable
      (roundSteps (digits * 10 ^ e * stepsPerUnit) 1) := fun h => by
    have h1 := two_pow_le_roundSteps hbig
    have h2 := h.1
    unfold stepLimit at h2
    exact absurd h1 (Nat.not_le.2 h2)
  simp only [ofRatio?, hn, dite_false]

/-- Below half a step everything is zero. -/
theorem ofRatio?_of_small (negative : Bool) {digits k : Nat}
    (h : digits.log2 + unitExponent + 2 ≤ 3 * k) :
    ofRatio? negative (digits * stepsPerUnit) (10 ^ k) = some (zero negative) := by
  have hlt : 2 * (digits * stepsPerUnit) < 10 ^ k := by
    unfold stepsPerUnit
    calc 2 * (digits * 2 ^ unitExponent)
        < 2 * (2 ^ (digits.log2 + 1) * 2 ^ unitExponent) :=
          Nat.mul_lt_mul_of_pos_left
            (Nat.mul_lt_mul_of_pos_right Nat.lt_log2_self (Nat.two_pow_pos _)) (by decide)
      _ = 2 ^ (digits.log2 + unitExponent + 2) := by
          rw [← Nat.pow_add, ← Nat.pow_succ']
          exact congrArg (2 ^ ·) (by omega)
      _ ≤ 2 ^ (3 * k) := Nat.pow_le_pow_right (by decide) h
      _ = 8 ^ k := by rw [Nat.pow_mul]
      _ ≤ 10 ^ k := Nat.pow_le_pow_left (by decide) k
  exact ofRatio?_eq_some_iff.2 ⟨rfl, (roundSteps_eq_zero hlt).symm⟩

/-- Reading a decimal is rounding its ratio; the shortcuts make no difference. -/
theorem ofDecimal?_eq_ofRatio? (negative : Bool) (digits : Nat) (exponent : Int) :
    ofDecimal? negative digits exponent =
      ofRatio? negative (digits * 10 ^ exponent.toNat * stepsPerUnit) (10 ^ (-exponent).toNat) := by
  unfold ofDecimal?
  -- no digits, a power of ten that is too large, one that is too small, and the others
  split
  next h =>
    refine (ofRatio?_eq_some_iff.2 ⟨rfl, ?_⟩).symm
    rw [h, Nat.zero_mul, Nat.zero_mul, roundSteps_eq_zero (by simp)]
    rfl
  next hd =>
    split
    next he =>
      rw [show (-exponent).toNat = 0 by omega, Nat.pow_zero]
      exact (ofRatio?_of_large negative (Nat.pos_of_ne_zero hd) (by omega)).symm
    next =>
      split
      next hs =>
        rw [show exponent.toNat = 0 by simp only [unitExponent] at hs; omega, Nat.pow_zero,
          Nat.mul_one]
        exact (ofRatio?_of_small negative hs).symm
      next => rfl

theorem unitsPerStep_pos : 0 < unitsPerStep := by
  unfold unitsPerStep
  exact Nat.pow_pos (by decide)

theorem stepsPerUnit_mul_unitsPerStep : stepsPerUnit * unitsPerStep = 10 ^ unitExponent := by
  unfold stepsPerUnit unitsPerStep
  rw [← Nat.mul_pow]

/-- Equal decimals have equal ratios: what is left of the powers of ten, `e`, `a` and `b` among
them, is compared after a factor that makes all of them whole. -/
theorem cross_mul_of_units {digits units a b up down e steps perStep : Nat}
    (hten : steps * perStep = 10 ^ e) (h : digits * 10 ^ a = units * 10 ^ b)
    (hexp : up + e + b = a + down) :
    digits * 10 ^ up * steps * perStep = units * 10 ^ down := by
  refine Nat.eq_of_mul_eq_mul_right (Nat.pow_pos (show 0 < 10 by decide) : 0 < 10 ^ b) ?_
  calc digits * 10 ^ up * steps * perStep * 10 ^ b
      = digits * 10 ^ (up + e + b) := by
        rw [Nat.mul_assoc (digits * _), hten, Nat.pow_add, Nat.pow_add]
        simp only [Nat.mul_assoc]
    _ = digits * 10 ^ a * 10 ^ down := by rw [hexp, Nat.pow_add, Nat.mul_assoc]
    _ = units * 10 ^ down * 10 ^ b := by rw [h, Nat.mul_right_comm]

theorem toNat_add_of_sub_eq {a b e : Nat} {exponent : Int} (h : (a : Int) - b = exponent + e) :
    exponent.toNat + e + b = a + (-exponent).toNat := by
  omega

/-- A decimal reads as the number of units of 10⁻¹⁰⁷⁴ that it is. -/
theorem ofDecimal?_of_units (negative : Bool) {digits units a b : Nat} {exponent : Int}
    (h : digits * 10 ^ a = units * 10 ^ b) (he : (a : Int) - b = exponent + unitExponent) :
    ofDecimal? negative digits exponent = ofRatio? negative units unitsPerStep := by
  have hcross := cross_mul_of_units stepsPerUnit_mul_unitsPerStep h (toNat_add_of_sub_eq he)
  exact (ofDecimal?_eq_ofRatio? ..).trans
    (ofRatio?_congr hcross (Nat.pow_pos (by decide)) unitsPerStep_pos)

/-! ### The shortest decimal -/

variable {x : Finite}

theorem readsBack_iff {units : Nat} :
    x.readsBack units = true ↔ ofRatio? x.negative units unitsPerStep = some x := by
  rw [readsBack, beq_iff_eq]

theorem readsBack_units : x.readsBack x.units = true := by
  rw [readsBack_iff, ofRatio?_eq_some_iff, units]
  exact ⟨rfl, (roundSteps_mul x.representable unitsPerStep_pos).symm⟩

/-- What is picked may be taken, and is not farther than the other neighbour if that may be taken. -/
theorem fits_of_pickNeighbour? {tie : Tie} {magnitude grid picked : Nat} {belowFits aboveFits : Bool}
    (h : pickNeighbour? tie magnitude grid belowFits aboveFits = some picked) :
    (belowFits = true ∧ picked = magnitude / grid * grid ∧ (aboveFits = true →
        magnitude - magnitude / grid * grid ≤ magnitude / grid * grid + grid - magnitude)) ∨
      (aboveFits = true ∧ picked = magnitude / grid * grid + grid ∧ (belowFits = true →
        magnitude / grid * grid + grid - magnitude ≤ magnitude - magnitude / grid * grid)) := by
  cases belowFits with
  | false =>
    cases aboveFits with
    | false => cases h
    | true => exact .inr ⟨rfl, (Option.some.inj h).symm, nofun⟩
  | true =>
    cases aboveFits with
    | false => exact .inl ⟨rfl, (Option.some.inj h).symm, nofun⟩
    | true =>
      simp only [pickNeighbour?] at h
      split at h
      next hlt => exact .inl ⟨rfl, (Option.some.inj h).symm, fun _ => hlt.le⟩
      next hge =>
        split at h
        next hlt => exact .inr ⟨rfl, (Option.some.inj h).symm, fun _ => hlt.le⟩
        next hle =>
          -- the two are equally near
          cases tie with
          | toEven =>
            simp only at h
            split at h
            · exact .inl ⟨rfl, (Option.some.inj h).symm, fun _ => Nat.le_of_not_lt hle⟩
            · exact .inr ⟨rfl, (Option.some.inj h).symm, fun _ => Nat.le_of_not_lt hge⟩
          | up => exact .inr ⟨rfl, (Option.some.inj h).symm, fun _ => Nat.le_of_not_lt hge⟩

theorem readsBack_of_onGrid? {tie : Tie} {grid units : Nat} (h : x.onGrid? tie grid = some units) :
    x.readsBack units = true := by
  rcases fits_of_pickNeighbour? h with ⟨hb, rfl, -⟩ | ⟨ha, rfl, -⟩
  · exact hb
  · exact ha

/-- The shortest decimal of a double reads back as it. -/
theorem readsBack_shortestUnits (tie : Tie) (x : Finite) :
    x.readsBack (x.shortestUnits tie) = true := by
  unfold shortestUnits
  dsimp only
  cases h : (List.range' 1 17).findSome? fun digits =>
    x.onGrid? tie (10 ^ ((Nat.toDigits 10 x.units).length - digits)) with
  | none => exact readsBack_units
  | some units =>
    obtain ⟨digits, -, hd⟩ := List.exists_of_findSome?_eq_some h
    exact readsBack_of_onGrid? hd

theorem shortestUnits_pos (tie : Tie) (h : x.steps ≠ 0) : 0 < x.shortestUnits tie := by
  refine Nat.pos_of_ne_zero fun h0 => h ?_
  have hb := readsBack_shortestUnits tie x
  rw [h0, readsBack_iff, ofRatio?_eq_some_iff] at hb
  rw [hb.2, roundSteps_eq_zero (by simpa using unitsPerStep_pos)]

end Binary64.Finite

end DocTree
