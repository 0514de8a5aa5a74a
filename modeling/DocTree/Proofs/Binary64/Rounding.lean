import DocTree.Binary64.Decimal
import Mathlib.Tactic.Ring

/-!
# Rounding to a double

`Finite.roundSteps` takes a ratio to the nearest magnitude of a double.  It depends on the ratio
alone (`roundSteps_congr`), leaves the magnitudes of doubles as they are (`roundSteps_mul`), and
gives nothing but such magnitudes as long as they are in range (`representable_roundSteps`).  No
ratio crosses a power of two by it (`two_pow_le_roundSteps`, `roundSteps_le_two_pow`) or another ratio
(`roundSteps_mono`), and one that differs from the magnitude of a double by less than 2⁻⁵⁴ of it goes
back to it (`roundSteps_eq_of_near`).
-/

namespace DocTree.Binary64.Finite

/-! ### The nearest quotient -/

theorem divNearest_mul (quotient : Nat) {den : Nat} (h : 0 < den) :
    divNearest (quotient * den) den = quotient := by
  have hn : ¬ (den < 2 * 0 ∨ (2 * 0 = den ∧ quotient % 2 = 1)) := by omega
  unfold divNearest
  rw [Nat.mul_mod_left, Nat.mul_div_cancel quotient h, if_neg hn]

theorem divNearest_scale {c : Nat} (hc : 0 < c) (num den : Nat) :
    divNearest (c * num) (c * den) = divNearest num den := by
  unfold divNearest
  rw [Nat.mul_div_mul_left _ _ hc, Nat.mul_mod_mul_left, Nat.mul_left_comm 2 c]
  simp only [Nat.mul_lt_mul_left hc, Nat.mul_right_inj (Nat.pos_iff_ne_zero.1 hc)]

theorem div_le_divNearest (num den : Nat) : num / den ≤ divNearest num den := by
  unfold divNearest
  dsimp only
  split <;> omega

theorem divNearest_le (num den : Nat) : divNearest num den ≤ num / den + 1 := by
  unfold divNearest
  dsimp only
  split <;> omega

theorem divNearest_mono {num num' : Nat} (h : num ≤ num') (den : Nat) :
    divNearest num den ≤ divNearest num' den := by
  rcases Nat.lt_or_eq_of_le (Nat.div_le_div_right h : num / den ≤ num' / den) with hlt | heq
  · calc divNearest num den ≤ num / den + 1 := divNearest_le num den
      _ ≤ num' / den := hlt
      _ ≤ divNearest num' den := div_le_divNearest num' den
  · -- with one quotient the rests are ordered as the numerators
    have hrest : num % den ≤ num' % den := by
      have h1 := Nat.div_add_mod num den
      have h2 := Nat.div_add_mod num' den
      rw [heq] at h1
      omega
    unfold divNearest
    dsimp only
    rw [heq]
    split <;> split <;> omega

/-- What is nearer than half to a whole number is rounded to it. -/
theorem divNearest_eq_of_near {num den m : Nat} (habove : 2 * num < (2 * m + 1) * den)
    (hbelow : 2 * m * den < 2 * num + den) : divNearest num den = m := by
  have hden : 0 < den := Nat.pos_of_ne_zero fun h => by simp [h] at habove
  have hnum : den * (num / den) + num % den = num := Nat.div_add_mod num den
  have hrest : num % den < den := Nat.mod_lt num hden
  -- the quotient is the whole number or one less, and the rest tells which
  have hle : num / den ≤ m := by
    have h : 2 * (num / den) * den < (2 * m + 1) * den :=
      calc 2 * (num / den) * den ≤ 2 * num := by rw [Nat.mul_assoc, Nat.mul_comm _ den]; omega
        _ < (2 * m + 1) * den := habove
    have := Nat.lt_of_mul_lt_mul_right h
    omega
  have hge : m ≤ num / den + 1 := by
    have h : 2 * m * den < (2 * (num / den) + 3) * den :=
      calc 2 * m * den < 2 * num + den := hbelow
        _ ≤ (2 * (num / den) + 3) * den := by
          rw [Nat.add_mul, Nat.mul_assoc, Nat.mul_comm _ den]
          omega
    have := Nat.lt_of_mul_lt_mul_right h
    omega
  unfold divNearest
  dsimp only
  rcases Nat.lt_or_eq_of_le hge with hlt | heq
  · have hm : num / den = m := by omega
    rw [Nat.add_mul, Nat.mul_assoc, Nat.mul_comm m, ← hm] at habove
    rw [if_neg (by omega), hm]
  · rw [heq, Nat.mul_assoc, Nat.mul_comm _ den, Nat.mul_add] at hbelow
    rw [if_pos (by omega), heq]

/-! ### Ratios of steps -/

/-- The distance of neighbours divides what it is the distance at. -/
theorem exists_mul_of_representable {steps : Nat} (h : Representable steps) :
    ∃ m, steps = m * 2 ^ (steps.log2 - 52) :=
  ⟨steps / 2 ^ (steps.log2 - 52), (Nat.div_mul_cancel (Nat.dvd_of_mod_eq_zero h.2)).symm⟩

/-- The magnitude of a double is not rounded. -/
theorem roundSteps_mul {steps den : Nat} (h : Representable steps) (hden : 0 < den) :
    roundSteps (steps * den) den = steps := by
  obtain ⟨m, hm⟩ := exists_mul_of_representable h
  have hs : 0 < den * 2 ^ (steps.log2 - 52) := Nat.mul_pos hden (Nat.two_pow_pos _)
  unfold roundSteps
  simp only [Nat.mul_div_cancel steps hden]
  have hn : steps * den = m * (den * 2 ^ (steps.log2 - 52)) := by
    conv_lhs => rw [hm]
    rw [Nat.mul_assoc, Nat.mul_comm (2 ^ _) den]
  rw [hn, divNearest_mul m hs]
  exact hm.symm

theorem roundSteps_scale {c : Nat} (hc : 0 < c) (num den : Nat) :
    roundSteps (c * num) (c * den) = roundSteps num den := by
  unfold roundSteps
  simp only [Nat.mul_div_mul_left _ _ hc, Nat.mul_assoc, divNearest_scale hc]

/-- Equal ratios are rounded to the same magnitude. -/
theorem roundSteps_congr {num den num' den' : Nat} (h : num * den' = num' * den) (hden : 0 < den)
    (hden' : 0 < den') : roundSteps num den = roundSteps num' den' := by
  rw [← roundSteps_scale hden' num den, ← roundSteps_scale hden num' den', Nat.mul_comm den' num, h,
    Nat.mul_comm den' den, Nat.mul_comm den num']

/-- Less than half a step is rounded to zero. -/
theorem roundSteps_eq_zero {num den : Nat} (h : 2 * num < den) : roundSteps num den = 0 := by
  have hq : num / den = 0 := Nat.div_eq_of_lt (by omega)
  have hm : num % den = num := Nat.mod_eq_of_lt (by omega)
  have hn : ¬ (den < 2 * num ∨ (2 * num = den ∧ 0 % 2 = 1)) := by omega
  unfold roundSteps divNearest
  simp only [hq, Nat.log2_zero, Nat.zero_sub, Nat.pow_zero, Nat.mul_one, hm]
  rw [if_neg hn]

section Bounds

variable {num den k : Nat}

theorem div_mul_two_pow (num den e : Nat) : num / (den * 2 ^ e) = num / den / 2 ^ e :=
  (Nat.div_div_eq_div_mul ..).symm

theorem two_pow_le_roundSteps (h : 2 ^ k ≤ num / den) : 2 ^ k ≤ roundSteps num den := by
  have hq : num / den ≠ 0 := fun h0 => by
    have := Nat.two_pow_pos k
    omega
  have hk : k ≤ (num / den).log2 := (Nat.le_log2 hq).2 h
  -- the largest power of two that fits is a multiple of the spacing
  have hsplit : (num / den).log2 = (num / den).log2 - ((num / den).log2 - 52) +
      ((num / den).log2 - 52) := by omega
  have hfloor : 2 ^ ((num / den).log2 - ((num / den).log2 - 52)) ≤
      num / den / 2 ^ ((num / den).log2 - 52) := by
    rw [Nat.le_div_iff_mul_le (Nat.two_pow_pos _), ← Nat.pow_add, ← hsplit]
    exact Nat.log2_self_le hq
  calc 2 ^ k ≤ 2 ^ (num / den).log2 := Nat.pow_le_pow_right (by decide) hk
    _ = 2 ^ ((num / den).log2 - ((num / den).log2 - 52)) * 2 ^ ((num / den).log2 - 52) := by
        rw [← Nat.pow_add, ← hsplit]
    _ ≤ num / den / 2 ^ ((num / den).log2 - 52) * 2 ^ ((num / den).log2 - 52) :=
        Nat.mul_le_mul_right _ hfloor
    _ ≤ roundSteps num den := by
        rw [← div_mul_two_pow]
        exact Nat.mul_le_mul_right _ (div_le_divNearest _ _)

/-- The quotient on the grid of 53 digits, which is at most the next power of two. -/
theorem divNearest_le_two_pow (num den : Nat) :
    divNearest num (den * 2 ^ ((num / den).log2 - 52)) ≤ 2 ^ (min (num / den).log2 52 + 1) := by
  refine (divNearest_le _ _).trans ?_
  rw [div_mul_two_pow, Nat.succ_le_iff, Nat.div_lt_iff_lt_mul (Nat.two_pow_pos _), ← Nat.pow_add]
  have h : min (num / den).log2 52 + 1 + ((num / den).log2 - 52) = (num / den).log2 + 1 := by omega
  rw [h]
  exact Nat.lt_log2_self

theorem roundSteps_le_two_pow (h : num / den < 2 ^ k) : roundSteps num den ≤ 2 ^ k := by
  by_cases hq : num / den = 0
  · have h1 := divNearest_le_two_pow num den
    have h2 : divNearest num den ≤ 1 := by simpa [hq] using divNearest_le num den
    simp only [roundSteps, hq, Nat.log2_zero, Nat.zero_sub, Nat.pow_zero, Nat.mul_one]
    exact h2.trans (Nat.two_pow_pos k)
  · have hk : (num / den).log2 + 1 ≤ k := (Nat.log2_lt hq).2 h
    have he : min (num / den).log2 52 + 1 + ((num / den).log2 - 52) = (num / den).log2 + 1 := by
      omega
    calc roundSteps num den
        ≤ 2 ^ (min (num / den).log2 52 + 1) * 2 ^ ((num / den).log2 - 52) :=
          Nat.mul_le_mul_right _ (divNearest_le_two_pow num den)
      _ = 2 ^ ((num / den).log2 + 1) := by rw [← Nat.pow_add, he]
      _ ≤ 2 ^ k := Nat.pow_le_pow_right (by decide) hk

end Bounds

/-! ### Order and nearness -/

theorem log2_le_log2 {a b : Nat} (h : a ≤ b) : a.log2 ≤ b.log2 := by
  by_cases ha : a = 0
  · rw [ha, Nat.log2_zero]
    exact Nat.zero_le _
  · exact (Nat.le_log2 (by omega)).2 ((Nat.log2_self_le ha).trans h)

/-- The larger of two ratios of one denominator is not rounded to less. -/
theorem roundSteps_le_of_num_le {num num' : Nat} (h : num ≤ num') (den : Nat) :
    roundSteps num den ≤ roundSteps num' den := by
  have hq : num / den ≤ num' / den := Nat.div_le_div_right h
  rcases Nat.lt_or_eq_of_le (log2_le_log2 hq) with hlt | heq
  · -- a power of two lies between the two, and neither crosses it
    have hne : num' / den ≠ 0 := fun h0 => by
      rw [h0, Nat.log2_zero] at hlt
      omega
    calc roundSteps num den ≤ 2 ^ (num' / den).log2 := by
          refine roundSteps_le_two_pow ?_
          calc num / den < 2 ^ ((num / den).log2 + 1) := Nat.lt_log2_self
            _ ≤ 2 ^ (num' / den).log2 := Nat.pow_le_pow_right (by decide) hlt
      _ ≤ roundSteps num' den := two_pow_le_roundSteps (Nat.log2_self_le hne)
  · unfold roundSteps
    rw [heq]
    exact Nat.mul_le_mul_right _ (divNearest_mono h _)

/-- The larger of two ratios is not rounded to less. -/
theorem roundSteps_mono {num den num' den' : Nat} (h : num * den' ≤ num' * den) (hden : 0 < den)
    (hden' : 0 < den') : roundSteps num den ≤ roundSteps num' den' := by
  rw [← roundSteps_scale hden' num den, ← roundSteps_scale hden num' den', Nat.mul_comm den' den]
  refine roundSteps_le_of_num_le ?_ _
  rw [Nat.mul_comm den', Nat.mul_comm den]
  exact h

section Near

variable {num den steps : Nat}

/-- Next to the magnitude of a double the binary digits have at most its places. -/
theorem log2_le_of_near (hs : steps % 2 ^ (steps.log2 - 52) = 0) (hpos : 0 < steps)
    (hnear : 2 ^ 54 * num < (2 ^ 54 + 1) * (steps * den)) : (num / den).log2 ≤ steps.log2 := by
  have hden : 0 < den := Nat.pos_of_ne_zero fun h => by simp [h] at hnear
  obtain ⟨m, hm⟩ := Nat.dvd_of_mod_eq_zero hs
  have hlt : steps < 2 ^ (steps.log2 + 1) := Nat.lt_log2_self
  -- there is room for one more of the last places of the double below the next power of two
  have hroom : steps + 2 ^ (steps.log2 - 52) ≤ 2 ^ (steps.log2 + 1) := by
    have hsplit : 2 ^ (steps.log2 + 1) =
        2 ^ (steps.log2 - 52) * 2 ^ (steps.log2 + 1 - (steps.log2 - 52)) := by
      rw [← Nat.pow_add]
      exact congrArg (2 ^ ·) (by omega)
    have hm' : m < 2 ^ (steps.log2 + 1 - (steps.log2 - 52)) := by
      rw [hsplit] at hlt
      conv_lhs at hlt => rw [hm]
      exact Nat.lt_of_mul_lt_mul_left hlt
    calc steps + 2 ^ (steps.log2 - 52)
        = 2 ^ (steps.log2 - 52) * (m + 1) := by rw [Nat.mul_succ, ← hm]
      _ ≤ 2 ^ (steps.log2 + 1) := by
        rw [hsplit]
        exact Nat.mul_le_mul_left _ hm'
  have hplaces : steps < 2 ^ 53 * 2 ^ (steps.log2 - 52) :=
    calc steps < 2 ^ (steps.log2 + 1) := hlt
      _ ≤ 2 ^ (53 + (steps.log2 - 52)) := Nat.pow_le_pow_right (by decide) (by omega)
      _ = _ := Nat.pow_add ..
  have hnum : num < 2 ^ (steps.log2 + 1) * den := by
    have h : 2 ^ 54 * num < 2 ^ 54 * ((steps + 2 ^ (steps.log2 - 52)) * den) :=
      calc 2 ^ 54 * num < (2 ^ 54 + 1) * (steps * den) := hnear
        _ ≤ (2 ^ 54 * steps + 2 ^ 54 * 2 ^ (steps.log2 - 52)) * den := by
          rw [← Nat.mul_assoc]
          exact Nat.mul_le_mul_right _ (by omega)
        _ = _ := by rw [← Nat.mul_add, Nat.mul_assoc]
    exact (Nat.lt_of_mul_lt_mul_left h).trans_le (Nat.mul_le_mul_right _ hroom)
  by_cases hq : num / den = 0
  · rw [hq, Nat.log2_zero]
    exact Nat.zero_le _
  · exact Nat.le_of_lt_succ ((Nat.log2_lt hq).2 ((Nat.div_lt_iff_lt_mul hden).2 hnum))

/-- What is nearer to the magnitude of a double than 2⁻⁵⁴ of it is rounded to it. -/
theorem roundSteps_eq_of_near (hs : Representable steps) (hpos : 0 < steps)
    (habove : 2 ^ 54 * num < (2 ^ 54 + 1) * (steps * den))
    (hbelow : (2 ^ 54 - 1) * (steps * den) < 2 ^ 54 * num) : roundSteps num den = steps := by
  have hden : 0 < den := Nat.pos_of_ne_zero fun h => by simp [h] at habove
  have hlog : (num / den).log2 - 52 ≤ steps.log2 - 52 :=
    Nat.sub_le_sub_right (log2_le_of_near hs.2 hpos habove) 52
  -- the places of the ratio are at least as fine as those of the double
  obtain ⟨m, hm⟩ : 2 ^ ((num / den).log2 - 52) ∣ steps :=
    (Nat.pow_dvd_pow 2 hlog).trans (Nat.dvd_of_mod_eq_zero hs.2)
  have hplaces : num < 2 ^ 53 * (2 ^ ((num / den).log2 - 52) * den) :=
    calc num < 2 ^ ((num / den).log2 + 1) * den :=
          (Nat.div_lt_iff_lt_mul hden).1 Nat.lt_log2_self
      _ ≤ 2 ^ (53 + ((num / den).log2 - 52)) * den :=
          Nat.mul_le_mul_right _ (Nat.pow_le_pow_right (by decide) (by omega))
      _ = _ := by rw [Nat.pow_add, Nat.mul_assoc]
  unfold roundSteps
  dsimp only
  generalize 2 ^ ((num / den).log2 - 52) = spacing at hm hplaces
  have hsteps : steps * den = m * (spacing * den) := by
    rw [hm, Nat.mul_comm spacing, Nat.mul_assoc]
  rw [hsteps] at habove hbelow
  rw [Nat.mul_comm den, hm, Nat.mul_comm spacing m]
  generalize spacing * den = unit at *
  have hm53 : m ≤ 2 ^ 53 := by
    have hlt : (2 ^ 54 - 1) * m * unit < 2 ^ 54 * 2 ^ 53 * unit := by
      rw [Nat.mul_assoc]
      omega
    have := Nat.lt_of_mul_lt_mul_right hlt
    omega
  have hmul : m * unit ≤ 2 ^ 53 * unit := Nat.mul_le_mul_right _ hm53
  refine congrArg (· * spacing) (divNearest_eq_of_near ?_ ?_)
  · rw [Nat.add_mul, Nat.mul_assoc]
    omega
  · rw [Nat.mul_assoc]
    omega

end Near

/-! ### Representable results -/

theorem mod_two_pow_log2 {m e : Nat} (hm : m ≤ 2 ^ 53) :
    (m * 2 ^ e) % 2 ^ ((m * 2 ^ e).log2 - 52) = 0 := by
  rcases Nat.eq_zero_or_pos m with rfl | hpos
  · simp
  have hne : m * 2 ^ e ≠ 0 := Nat.mul_ne_zero (by omega) (Nat.two_pow_pos e).ne'
  refine Nat.mod_eq_zero_of_dvd ?_
  rcases Nat.lt_or_eq_of_le hm with hlt | rfl
  · have hlog : (m * 2 ^ e).log2 < 53 + e := by
      rw [Nat.log2_lt hne, Nat.pow_add]
      exact Nat.mul_lt_mul_of_pos_right hlt (Nat.two_pow_pos e)
    exact (Nat.pow_dvd_pow 2 (by omega)).trans (Nat.dvd_mul_left _ _)
  · rw [← Nat.pow_add, Nat.log2_two_pow]
    exact Nat.pow_dvd_pow 2 (by omega)

/-- What a ratio is rounded to is the magnitude of a double, unless it is too large. -/
theorem representable_roundSteps {num den : Nat} (h : roundSteps num den < stepLimit) :
    Representable (roundSteps num den) := by
  refine ⟨h, mod_two_pow_log2 ((divNearest_le_two_pow num den).trans ?_)⟩
  exact Nat.pow_le_pow_right (by decide) (by omega)

theorem representable_roundSteps_of_lt {num den k : Nat} (h : num / den < 2 ^ k)
    (hk : k < limitExponent) : Representable (roundSteps num den) := by
  refine representable_roundSteps ((roundSteps_le_two_pow h).trans_lt ?_)
  unfold stepLimit
  exact Nat.pow_lt_pow_right (by decide) hk

/-- The double nearest to a ratio, by its sign and its magnitude. -/
theorem ofRatio?_eq_some_iff {negative : Bool} {num den : Nat} {x : Finite} :
    ofRatio? negative num den = some x ↔ x.negative = negative ∧ x.steps = roundSteps num den := by
  unfold ofRatio?
  obtain ⟨xn, xs, hx⟩ := x
  by_cases h : Representable (roundSteps num den)
  · simp only [h, dite_true, Option.some.injEq, mk.injEq]
    exact and_congr eq_comm eq_comm
  · simp only [h, dite_false, reduceCtorEq, false_iff, not_and]
    rintro - rfl
    exact h hx

theorem ofRatio?_congr {negative : Bool} {num den num' den' : Nat} (h : num * den' = num' * den)
    (hden : 0 < den) (hden' : 0 < den') :
    ofRatio? negative num den = ofRatio? negative num' den' := by
  simp only [ofRatio?, roundSteps_congr h hden hden']

end DocTree.Binary64.Finite
