import DocTree.Binary64.Scaling
import DocTree.Proofs.Binary64.Shortest

/-!
# Scaled doubles

A double that is scaled by a power of ten is rounded at every step.  Few digits and a small power of
ten are doubles themselves, so that only the last step rounds, and the outcome is the double nearest to
the decimal (`scale?_eq_ofRatio?`).  In other cases it may be a neighbour of it, and larger than all
doubles if the decimal is next to the largest one.

No decimal of at most seventeen digits that is not above the largest double is lost by that
(`exists_scale?`).  A division makes nothing larger.  The product grows with the digits, so for every
power of ten one product settles it, that of the most digits that stay below the largest double
(`times_lt_stepLimit`).
-/

namespace DocTree.Binary64.Finite

/-! ### Natural numbers -/

/-- The magnitude of the double nearest to a natural number, in steps. -/
def natSteps (n : Nat) : Nat := roundSteps (n * stepsPerUnit) 1

theorem natSteps_mono {m n : Nat} (h : m ≤ n) : natSteps m ≤ natSteps n :=
  roundSteps_le_of_num_le (Nat.mul_le_mul_right _ h) 1

theorem natSteps_of_representable {n : Nat} (h : Representable (n * stepsPerUnit)) :
    natSteps n = n * stepsPerUnit := by
  have hone := roundSteps_mul h Nat.one_pos
  rwa [Nat.mul_one] at hone

theorem ofNat?_eq_some_iff {n : Nat} {x : Finite} :
    ofNat? n = some x ↔ x.negative = false ∧ x.steps = natSteps n := by
  rw [ofNat?, ofDecimal?_eq_ofRatio?, ofRatio?_eq_some_iff, natSteps]
  simp

theorem tenPow?_eq (k : Nat) : tenPow? k = ofNat? (10 ^ k) := by
  rw [tenPow?, ofNat?, ofDecimal?_eq_ofRatio?, ofDecimal?_eq_ofRatio?]
  simp

/-! ### The largest double -/

/-- The largest finite double, which is a whole number. -/
@[irreducible] def largestWhole : Nat := (2 ^ 53 - 1) * 2 ^ (limitExponent - unitExponent - 53)

/-- The largest finite double with the given sign. -/
def largest (negative : Bool) : Finite := ⟨negative, largestWhole * stepsPerUnit, by decide +kernel⟩

theorem steps_le_largest (x : Finite) : x.steps ≤ largestWhole * stepsPerUnit := by
  obtain ⟨m, hm⟩ := exists_mul_of_representable x.representable
  have hlog : x.steps.log2 ≤ limitExponent - 1 := by
    have hlimit : x.steps < stepLimit := x.representable.1
    unfold stepLimit at hlimit
    exact (log2_le_log2 (Nat.le_pred_of_lt hlimit)).trans (by decide +kernel)
  have hm53 : m < 2 ^ 53 := by
    have hlt : m * 2 ^ (x.steps.log2 - 52) < 2 ^ 53 * 2 ^ (x.steps.log2 - 52) :=
      calc m * 2 ^ (x.steps.log2 - 52) = x.steps := hm.symm
        _ < 2 ^ (x.steps.log2 + 1) := Nat.lt_log2_self
        _ ≤ 2 ^ (53 + (x.steps.log2 - 52)) := Nat.pow_le_pow_right (by decide) (by omega)
        _ = _ := Nat.pow_add ..
    exact Nat.lt_of_mul_lt_mul_right hlt
  calc x.steps = m * 2 ^ (x.steps.log2 - 52) := hm
    _ ≤ (2 ^ 53 - 1) * 2 ^ (limitExponent - 53) :=
      Nat.mul_le_mul (Nat.le_pred_of_lt hm53) (Nat.pow_le_pow_right (by decide) (by omega))
    _ = largestWhole * stepsPerUnit := by decide +kernel

/-- A natural number up to the largest double is taken to a double. -/
theorem exists_ofNat? {n : Nat} (h : n ≤ largestWhole) : ∃ x, ofNat? n = some x := by
  have hlt : natSteps n < stepLimit :=
    calc natSteps n ≤ natSteps largestWhole := natSteps_mono h
      _ = largestWhole * stepsPerUnit := natSteps_of_representable (largest false).representable
      _ < stepLimit := (largest false).representable.1
  exact ⟨⟨false, natSteps n, representable_roundSteps hlt⟩, ofNat?_eq_some_iff.2 ⟨rfl, rfl⟩⟩

theorem exists_tenPow? {k : Nat} (h : k ≤ tenPowLimit) :
    ∃ x, tenPow? k = some x ∧ stepsPerUnit ≤ x.steps := by
  have hlargest : 10 ^ tenPowLimit ≤ largestWhole := by decide +kernel
  obtain ⟨x, hx⟩ := exists_ofNat? ((Nat.pow_le_pow_right (by decide) h).trans hlargest)
  refine ⟨x, (tenPow?_eq k).trans hx, ?_⟩
  calc stepsPerUnit = natSteps 1 := by
        rw [natSteps_of_representable (by decide +kernel), Nat.one_mul]
    _ ≤ natSteps (10 ^ k) := natSteps_mono (Nat.pow_pos (by decide))
    _ = x.steps := (ofNat?_eq_some_iff.1 hx).2.symm

/-! ### Scaling keeps in range -/

/-- A number that is divided by one or more gets no larger. -/
theorem exists_over? {x y : Finite} (h : stepsPerUnit ≤ y.steps) : ∃ z, x.over? y = some z := by
  have hle : roundSteps (x.steps * stepsPerUnit) y.steps ≤ roundSteps (x.steps * 1) 1 :=
    roundSteps_mono (by rw [Nat.mul_one, Nat.mul_one]; exact Nat.mul_le_mul_left _ h)
      (stepsPerUnit_pos.trans_le h) Nat.one_pos
  rw [roundSteps_mul x.representable Nat.one_pos] at hle
  exact ⟨⟨x.negative, _, representable_roundSteps (hle.trans_lt x.representable.1)⟩,
    ofRatio?_eq_some_iff.2 ⟨rfl, rfl⟩⟩

theorem exists_lower? {rest : Nat} (h : rest ≤ tenPowLimit) (x : Finite) (rounds : Nat) :
    ∃ y, x.lower? rest rounds = some y := by
  induction rounds generalizing x with
  | zero =>
    obtain ⟨ten, hten, hle⟩ := exists_tenPow? h
    rw [lower?, hten, Option.bind_some]
    exact exists_over? hle
  | succ rounds ih =>
    rw [lower?]
    split
    · exact ⟨x, rfl⟩
    · obtain ⟨ten, hten, hle⟩ := exists_tenPow? (Nat.le_refl tenPowLimit)
      obtain ⟨y, hy⟩ := exists_over? hle
      rw [hten, Option.bind_some, hy, Option.bind_some]
      exact ih y

/-- The most digits that stay below the largest double with a power of ten, seventeen at most, stay
below it when they are scaled. -/
theorem times_lt_stepLimit : ∀ k < 18, roundSteps
    (natSteps (min (10 ^ 17) (largestWhole / 10 ^ (291 + k))) * natSteps (10 ^ (291 + k)))
    stepsPerUnit < stepLimit := by
  decide +kernel

/-- A power of ten that is taken some times is not above the largest double, unless it is too large. -/
theorem le_tenPowLimit {digits k : Nat} (h : 0 < digits) (small : digits * 10 ^ k ≤ largestWhole) :
    k ≤ tenPowLimit := by
  have hlt : 10 ^ k < 10 ^ (tenPowLimit + 1) :=
    calc 10 ^ k ≤ digits * 10 ^ k := Nat.le_mul_of_pos_left _ h
      _ ≤ largestWhole := small
      _ < 10 ^ (tenPowLimit + 1) := by decide +kernel
  rw [Nat.pow_lt_pow_iff_right (show 1 < 10 by decide)] at hlt
  exact Nat.le_of_lt_succ hlt

/-- A product of fewer digits and a smaller power of ten. -/
theorem exists_times? {digits k : Nat} {x ten : Finite} (few : digits ≤ 10 ^ 17)
    (small : digits * 10 ^ k ≤ largestWhole) (hk : k ≤ tenPowLimit) (hx : ofNat? digits = some x)
    (hten : tenPow? k = some ten) : ∃ y, x.times? ten = some y := by
  obtain ⟨j, hj, hle, hdigits⟩ : ∃ j < 18, k ≤ 291 + j ∧
      digits ≤ min (10 ^ 17) (largestWhole / 10 ^ (291 + j)) := by
    by_cases hlow : k ≤ 291
    · -- up to this power of ten all seventeen digits stay below the largest double
      exact ⟨0, by decide, hlow, few.trans (by decide +kernel)⟩
    · refine ⟨k - 291, by unfold tenPowLimit at hk; omega, by omega, ?_⟩
      rw [Nat.add_sub_cancel' (by omega)]
      exact Nat.le_min.2 ⟨few, (Nat.le_div_iff_mul_le (Nat.pow_pos (by decide))).2 small⟩
  rw [tenPow?_eq] at hten
  have hsteps : x.steps * ten.steps ≤
      natSteps (min (10 ^ 17) (largestWhole / 10 ^ (291 + j))) * natSteps (10 ^ (291 + j)) := by
    rw [(ofNat?_eq_some_iff.1 hx).2, (ofNat?_eq_some_iff.1 hten).2]
    exact Nat.mul_le_mul (natSteps_mono hdigits)
      (natSteps_mono (Nat.pow_le_pow_right (by decide) hle))
  have hlt := (roundSteps_le_of_num_le hsteps stepsPerUnit).trans_lt (times_lt_stepLimit j hj)
  exact ⟨⟨x.negative, _, representable_roundSteps hlt⟩, ofRatio?_eq_some_iff.2 ⟨rfl, rfl⟩⟩

/-- **Seventeen digits scaled by a power of ten are a double**, unless they are above the largest one. -/
theorem exists_scale? {digits : Nat} {exponent : Int} (few : digits ≤ 10 ^ 17)
    (small : digits * 10 ^ exponent.toNat ≤ largestWhole) :
    ∃ x y, ofNat? digits = some x ∧ x.scale? exponent = some y := by
  obtain ⟨x, hx⟩ := exists_ofNat? ((Nat.le_mul_of_pos_right _ (Nat.pow_pos (by decide))).trans small)
  refine ⟨x, ?_⟩
  rw [scale?]
  split
  next => exact ⟨x, hx, rfl⟩
  next hzero =>
    split
    next hexponent =>
      have hdigits : 0 < digits := Nat.pos_of_ne_zero fun h => hzero (by
        rw [(ofNat?_eq_some_iff.1 hx).2, natSteps, h, Nat.zero_mul, roundSteps_eq_zero (by decide)])
      have hk := le_tenPowLimit hdigits small
      obtain ⟨ten, hten, -⟩ := exists_tenPow? hk
      obtain ⟨y, hy⟩ := exists_times? few small hk hx hten
      exact ⟨y, hx, by rw [hten, Option.bind_some, hy]⟩
    next =>
      have hrest : ((-exponent).toNat - 1) % tenPowLimit + 1 ≤ tenPowLimit :=
        Nat.mod_lt _ (by decide)
      obtain ⟨y, hy⟩ := exists_lower? hrest x (((-exponent).toNat - 1) / tenPowLimit)
      exact ⟨y, hx, hy⟩

/-! ### The shortest decimals -/

/-- The shortest decimal of the largest double is below it. -/
theorem shortestUnits_largest_le (negative : Bool) :
    (largest negative).shortestUnits .toEven ≤ (largest negative).units := by
  cases negative <;> decide +kernel

/-- No shortest decimal is above the largest double. -/
theorem shortestUnits_le (x : Finite) :
    x.shortestUnits .toEven ≤ largestWhole * 10 ^ unitExponent := by
  have hunits (negative : Bool) : (largest negative).units = largestWhole * 10 ^ unitExponent := by
    rw [units, ← stepsPerUnit_mul_unitsPerStep, ← Nat.mul_assoc]
    rfl
  rw [← hunits x.negative]
  rcases Nat.lt_or_eq_of_le (steps_le_largest x) with hlt | heq
  · -- what reads back as a smaller double is smaller
    refine Nat.le_of_not_lt fun hgt => Nat.not_le.2 hlt ?_
    have hmono := roundSteps_le_of_num_le hgt.le unitsPerStep
    rw [units, roundSteps_mul (largest x.negative).representable unitsPerStep_pos] at hmono
    rwa [(ofRatio?_eq_some_iff.1 (readsBack_iff.1 (readsBack_shortestUnits .toEven x))).2]
  · have hx : x = largest x.negative := by
      obtain ⟨negative, steps, h⟩ := x
      subst heq
      rfl
    have hle := shortestUnits_largest_le x.negative
    rwa [← hx] at hle ⊢

/-! ### Scaling without loss -/

/-- The sign makes no difference to what is nearest. -/
theorem map_withSign_ofRatio? (negative : Bool) (num den : Nat) :
    (ofRatio? false num den).map (·.withSign negative) = ofRatio? negative num den := by
  simp only [ofRatio?]
  split <;> rfl

theorem representable_mul_stepsPerUnit {n : Nat} (h : n ≤ 2 ^ 53) :
    Representable (n * stepsPerUnit) := by
  unfold stepsPerUnit
  refine ⟨?_, mod_two_pow_log2 h⟩
  unfold stepLimit
  calc n * 2 ^ unitExponent ≤ 2 ^ 53 * 2 ^ unitExponent := Nat.mul_le_mul_right _ h
    _ < 2 ^ limitExponent := by
      rw [← Nat.pow_add]
      exact Nat.pow_lt_pow_right (by decide) (by decide)

/-- The powers of ten up to 10²² are doubles. -/
theorem representable_ten_pow : ∀ k < 23, Representable (10 ^ k * stepsPerUnit) := by
  decide +kernel

/-- So these are taken for themselves. -/
theorem exists_tenPow?_of_small {k : Nat} (h : k < 23) :
    ∃ ten, tenPow? k = some ten ∧ ten.steps = 10 ^ k * stepsPerUnit := by
  obtain ⟨ten, hten, -⟩ := exists_tenPow? (h.le.trans (by decide))
  refine ⟨ten, hten, ?_⟩
  rw [tenPow?_eq] at hten
  rw [(ofNat?_eq_some_iff.1 hten).2, natSteps_of_representable (representable_ten_pow k h)]

/-- **Few digits are scaled by a small power of ten to the double nearest to the decimal.** -/
theorem scale?_eq_ofRatio? {digits : Nat} {exponent : Int} {x : Finite} (few : digits ≤ 2 ^ 53)
    (small : exponent.natAbs < 23) (hx : ofNat? digits = some x) :
    x.scale? exponent = ofRatio? false (digits * 10 ^ exponent.toNat * stepsPerUnit)
      (10 ^ (-exponent).toNat) := by
  obtain ⟨hnegative, hsteps⟩ := ofNat?_eq_some_iff.1 hx
  rw [natSteps_of_representable (representable_mul_stepsPerUnit few)] at hsteps
  rw [scale?]
  split
  next hzero =>
    have hdigits : digits = 0 := by
      rw [hsteps] at hzero
      exact (Nat.mul_eq_zero.1 hzero).resolve_right stepsPerUnit_pos.ne'
    refine (ofRatio?_eq_some_iff.2 ⟨hnegative, ?_⟩).symm
    rw [hzero, hdigits, Nat.zero_mul, Nat.zero_mul, roundSteps_eq_zero]
    exact Nat.pow_pos (by decide)
  next =>
    split
    next hexponent =>
      obtain ⟨ten, hten, htensteps⟩ := @exists_tenPow?_of_small exponent.toNat (by omega)
      rw [hten, Option.bind_some, times?, hnegative, hsteps, htensteps]
      refine ofRatio?_congr ?_ stepsPerUnit_pos (Nat.pow_pos (by decide))
      rw [show (-exponent).toNat = 0 by omega]
      ring
    next hexponent =>
      have hrounds : ((-exponent).toNat - 1) / tenPowLimit = 0 :=
        Nat.div_eq_of_lt (by unfold tenPowLimit; omega)
      have hrest : ((-exponent).toNat - 1) % tenPowLimit + 1 = (-exponent).toNat := by
        rw [Nat.mod_eq_of_lt (by unfold tenPowLimit; omega)]
        omega
      obtain ⟨ten, hten, htensteps⟩ := @exists_tenPow?_of_small (-exponent).toNat (by omega)
      dsimp only
      rw [hrounds, hrest, lower?, hten, Option.bind_some, over?, hnegative, hsteps, htensteps]
      refine ofRatio?_congr ?_ (Nat.mul_pos (Nat.pow_pos (by decide)) stepsPerUnit_pos)
        (Nat.pow_pos (by decide))
      rw [show exponent.toNat = 0 by omega]
      ring

end DocTree.Binary64.Finite
