import DocTree.Proofs.Binary64.Shortest
import DocTree.Property.Value

/-!
# Numbers as a scripting host writes them

A scripting host writes a number from the digits of a shortest decimal that reads back as it, with a
power of ten if the first digit counts 10²¹ or more, or less than 10⁻⁶ (`IsHostText`).  The text of a
property value has the same digits, but all of them in place and never a power of ten.

So the two agree exactly on zero and on the numbers from 10⁻⁶ on and below 10²¹
(`isHostText_numberText_iff`), where both bounds are the doubles that are read for them.
-/

namespace DocTree

namespace Decimal

/-! ### The notation of the host -/

/-- A decimal as a scripting host writes it: up to twenty-one digits before the point, up to five zeros
between the point and the first digit, and else with a power of ten. -/
def hostNotation (d : Decimal) : List Char :=
  let places := d.exponent + 1
  if d.digits.length ≤ places ∧ places ≤ 21 then
    d.digits ++ List.replicate (places.toNat - d.digits.length) '0'
  else if 0 < places ∧ places ≤ 21 then
    d.digits.take places.toNat ++ '.' :: d.digits.drop places.toNat
  else if -6 < places ∧ places ≤ 0 then
    '0' :: '.' :: (List.replicate (-places).toNat '0' ++ d.digits)
  else d.scientific

variable {d : Decimal}

/-- Within these places the digits stand as the host has them. -/
theorem positional_eq_hostNotation (h : d.Proper) (hlow : -6 ≤ d.exponent) (hhigh : d.exponent < 21) :
    d.positional false = d.hostNotation := by
  have hpos := h.length_pos
  unfold hostNotation
  dsimp only
  by_cases hneg : d.exponent < 0
  · have hzeros : (-(d.exponent + 1)).toNat = (-d.exponent).toNat - 1 := by omega
    rw [positional_of_neg hneg, if_neg (by omega), if_neg (by omega), if_pos (by omega), hzeros]
  · have hplaces : (d.exponent + 1).toNat = d.exponent.toNat + 1 := by omega
    by_cases hlong : d.digits.length ≤ d.exponent.toNat + 1
    · rw [positional_of_whole hneg hlong, if_neg Bool.false_ne_true, List.append_nil,
        if_pos (by omega), hplaces]
    · rw [positional_of_split hneg (Nat.lt_of_not_le hlong), if_neg (by omega), if_pos (by omega),
        hplaces]

theorem mem_positional {c : Char} (h : c ∈ d.positional false) :
    c ∈ d.digits ∨ c = '0' ∨ c = '.' := by
  by_cases hneg : d.exponent < 0
  · rw [positional_of_neg hneg] at h
    simp only [List.mem_cons, List.mem_append, List.mem_replicate] at h
    tauto
  · by_cases hlong : d.digits.length ≤ d.exponent.toNat + 1
    · rw [positional_of_whole hneg hlong, if_neg Bool.false_ne_true, List.append_nil,
        List.mem_append, List.mem_replicate] at h
      tauto
    · rw [positional_of_split hneg (Nat.lt_of_not_le hlong), List.mem_append, List.mem_cons] at h
      rcases h with h | h | h
      · exact .inl (List.mem_of_mem_take h)
      · exact .inr (.inr h)
      · exact .inl (List.mem_of_mem_drop h)

/-- With all digits in place there is no power of ten. -/
theorem not_mem_positional (h : d.Proper) : 'e' ∉ d.positional false := by
  intro he
  rcases mem_positional he with hdigit | hzero | hpoint
  · exact absurd (h.digits.2 _ hdigit) (by decide)
  · exact absurd hzero (by decide)
  · exact absurd hpoint (by decide)

theorem mem_hostNotation (h : d.exponent < -6 ∨ 21 ≤ d.exponent) : 'e' ∈ d.hostNotation := by
  unfold hostNotation
  dsimp only
  rw [if_neg (by omega), if_neg (by omega), if_neg (by omega), scientific]
  exact List.mem_append_right _ List.mem_cons_self

example : (⟨['1', '5'], -7⟩ : Decimal).hostNotation = "1.5e-7".toList := by decide

/-! ### Where the first digit stands -/

/-- The decimal of one digit. -/
def single (digit : Char) (place : Int) : Decimal := ⟨[digit], place⟩

theorem proper_single {digit : Char} (h : digit.isDigit = true) (hzero : digit ≠ '0') (place : Int) :
    (single digit place).Proper :=
  ⟨⟨List.cons_ne_nil _ _, List.forall_mem_singleton.2 h⟩, fun heq => hzero (Option.some.inj heq)⟩

theorem inUnits_single (digit : Char) (place : Int) : (single digit place).inUnits =
    (digit.toNat - '0'.toNat : Nat) * (10 : ℚ) ^ (place + Binary64.unitExponent) := by
  have hplace : (single digit place).lastPlace = place := by
    show place + 1 - 1 = place
    omega
  have hdigits : Numeral.ofDigits (single digit place).digits = digit.toNat - '0'.toNat :=
    Numeral.ofDigits_concat [] digit |>.trans (Nat.zero_add _)
  rw [inUnits, hplace, hdigits]

theorem inUnits_one (place : Int) :
    (single '1' place).inUnits = (10 : ℚ) ^ (place + Binary64.unitExponent) := by
  rw [inUnits_single]
  exact one_mul _

theorem eq_single_one (h : d.Proper) (hlength : d.digits.length = 1) {place : Int}
    (hunits : d.inUnits = (single '1' place).inUnits) : d = single '1' place := by
  obtain ⟨c, hc⟩ := List.length_eq_one_iff.1 hlength
  have hd : d = single c d.exponent := by
    rw [single, ← hc]
  obtain ⟨hlower, hupper⟩ := h.bounds
  rw [hunits, inUnits_one] at hlower hupper
  -- the bounds leave one place, and there the units tell the digit
  have hplace : d.exponent = place := by
    rw [zpow_le_zpow_iff_right₀ (by norm_num)] at hlower
    rw [zpow_lt_zpow_iff_right₀ (by norm_num)] at hupper
    omega
  rw [hplace] at hd
  have hdigit : (c.toNat - '0'.toNat : Nat) = 1 := by
    rw [hd, inUnits_one, inUnits_single] at hunits
    have hpower : (10 : ℚ) ^ (place + Binary64.unitExponent) ≠ 0 := zpow_ne_zero _ (by norm_num)
    exact_mod_cast (mul_eq_right₀ hpower).1 hunits
  have hone : c = '1' := by
    rw [← Char.toNat_inj]
    simp only [Char.reduceToNat] at hdigit ⊢
    omega
  rw [hd, hone]

/-- A decimal of one digit below a power of ten is at most nine tenths of it. -/
theorem inUnits_le_of_length_eq_one (h : d.Proper) (hlength : d.digits.length = 1) {place : Int}
    (hlt : d.exponent < place) : d.inUnits ≤ (single '9' (place - 1)).inUnits := by
  have hdigit : Numeral.ofDigits d.digits ≤ 9 := by
    have := Numeral.ofDigits_lt h.digits.2
    rw [hlength] at this
    omega
  have hplace : d.lastPlace ≤ place - 1 := by
    rw [lastPlace, hlength]
    omega
  rw [inUnits_single]
  refine mul_le_mul (Nat.cast_le.2 hdigit) ?_ (zpow_nonneg (by norm_num) _) (Nat.cast_nonneg _)
  exact zpow_le_zpow_right₀ (by norm_num) (by omega)

open Binary64.Finite

variable {x : Binary64.Finite}

/-- A shortest decimal begins at a power of ten or above exactly if the number is not below the double
that is nearest to the power: below the power, but nearest to the same double, only the power itself
would be shortest. -/
theorem Shortest.le_exponent_iff (h : d.Shortest x) {place : Int}
    (hgap : roundUnits (single '9' (place - 1)).inUnits < roundUnits (single '1' place).inUnits) :
    place ≤ d.exponent ↔ roundUnits (single '1' place).inUnits ≤ x.steps := by
  obtain ⟨hlower, hupper⟩ := h.proper.bounds
  have hround := reads_iff.1 h.reads
  constructor
  · intro hle
    rw [← hround]
    refine roundUnits_mono (inUnits_nonneg _) (le_trans ?_ hlower)
    rw [inUnits_one]
    exact zpow_le_zpow_right₀ (by norm_num) (by omega)
  · intro hle
    -- below the power, it would have to be the power itself
    refine Int.not_lt.1 fun hlt => ?_
    have hbelow : d.inUnits ≤ (single '1' place).inUnits := by
      rw [inUnits_one]
      exact hupper.le.trans (zpow_le_zpow_right₀ (by norm_num) (by omega))
    have hreads : (single '1' place).Reads x :=
      reads_iff.2 (le_antisymm hle (hround ▸ roundUnits_mono d.inUnits_nonneg hbelow))
    have hlength : d.digits.length = 1 :=
      le_antisymm (h.least _ (proper_single rfl (by decide) place) hreads) h.proper.length_pos
    have hnine := roundUnits_mono d.inUnits_nonneg (inUnits_le_of_length_eq_one h.proper hlength hlt)
    omega

end Decimal

namespace Binary64.Finite

/-! ### The range of plain notation -/

/-- The number is not below the double that is read for 10⁻⁶, and below that for 10²¹. -/
def InPlainRange (x : Finite) : Prop :=
  ∃ low high, ofDecimal? false 1 (-6) = some low ∧ ofDecimal? false 1 21 = some high ∧
    low.steps ≤ x.steps ∧ x.steps < high.steps

theorem roundUnits_single_natCast {digit : Char} {place : Int} {e : Nat}
    (h : place + unitExponent = e) : roundUnits (Decimal.single digit place).inUnits =
      roundSteps ((digit.toNat - '0'.toNat) * 10 ^ e) unitsPerStep := by
  rw [Decimal.inUnits_single, h, zpow_natCast, ← roundUnits_natCast]
  push_cast
  rfl

theorem gap_low : roundUnits (Decimal.single '9' (-6 - 1)).inUnits <
    roundUnits (Decimal.single '1' (-6)).inUnits := by
  rw [roundUnits_single_natCast (e := 1067) rfl, roundUnits_single_natCast (e := 1068) rfl]
  unfold unitsPerStep
  decide +kernel

theorem gap_high : roundUnits (Decimal.single '9' (21 - 1)).inUnits <
    roundUnits (Decimal.single '1' 21).inUnits := by
  rw [roundUnits_single_natCast (e := 1094) rfl, roundUnits_single_natCast (e := 1095) rfl]
  unfold unitsPerStep
  decide +kernel

theorem representable_low : Representable (roundUnits (Decimal.single '1' (-6)).inUnits) := by
  rw [roundUnits_single_natCast (e := 1068) rfl]
  unfold Representable stepLimit unitsPerStep
  decide +kernel

theorem representable_high : Representable (roundUnits (Decimal.single '1' 21).inUnits) := by
  rw [roundUnits_single_natCast (e := 1095) rfl]
  unfold Representable stepLimit unitsPerStep
  decide +kernel

theorem ofDecimal?_one_iff {place : Int} {x : Finite} : ofDecimal? false 1 place = some x ↔
    x.negative = false ∧ x.steps = roundUnits (Decimal.single '1' place).inUnits := by
  have hplace : (Decimal.single '1' place).lastPlace = place := by
    show place + 1 - 1 = place
    omega
  rw [← Decimal.ofDecimal?_eq_some_iff, hplace]
  rfl

variable {x : Finite}

theorem inPlainRange_iff : x.InPlainRange ↔
    roundUnits (Decimal.single '1' (-6)).inUnits ≤ x.steps ∧
      x.steps < roundUnits (Decimal.single '1' 21).inUnits := by
  constructor
  · rintro ⟨low, high, hlow, hhigh, hle, hlt⟩
    rw [(ofDecimal?_one_iff.1 hlow).2] at hle
    rw [(ofDecimal?_one_iff.1 hhigh).2] at hlt
    exact ⟨hle, hlt⟩
  · rintro ⟨hle, hlt⟩
    exact ⟨⟨false, _, representable_low⟩, ⟨false, _, representable_high⟩,
      ofDecimal?_one_iff.2 ⟨rfl, rfl⟩, ofDecimal?_one_iff.2 ⟨rfl, rfl⟩, hle, hlt⟩

/-- The first digit of a shortest decimal tells whether the number is in the range. -/
theorem inPlainRange_iff_exponent {d : Decimal} (h : d.Shortest x) :
    x.InPlainRange ↔ -6 ≤ d.exponent ∧ d.exponent < 21 := by
  rw [inPlainRange_iff, ← h.le_exponent_iff gap_low, ← Nat.not_le, ← h.le_exponent_iff gap_high,
    Int.not_le]

/-! ### Texts -/

/-- The text of the number in a scripting host: zero has no sign, and any other number has the digits of
a shortest decimal that reads back as it, and of these of a nearest one.  Of two that are equally near
either will do.  The step of the host's conversion that is required leaves their last digit open, and
that is what is said here; to take the even digit is only recommended. -/
def IsHostText (x : Finite) (text : String) : Prop :=
  if x.steps = 0 then text = "0"
  else ∃ d : Decimal, d.Shortest x ∧
    text.toList = if x.negative then '-' :: d.hostNotation else d.hostNotation

end Binary64.Finite

namespace PropertyValue

open Binary64 Binary64.Finite

variable {x : Binary64.Finite}

theorem toList_numberText (h : x.steps ≠ 0) : (numberText (.finite x)).toList =
    if x.negative then '-' :: (x.shortest .up).positional false
    else (x.shortest .up).positional false := by
  have hzero : ¬ (Binary64.finite x).isZero = true := by simpa [isZero] using h
  have hmagnitude : textLayout.magnitude x = (x.shortest .up).positional false := by
    rw [Layout.magnitude, if_neg h]
    exact if_pos rfl
  rw [numberText, if_neg hzero, String.toList_ofList, Layout.write, hmagnitude]

/-- The text of a number is that of the host exactly for zero and in the range of plain notation. -/
theorem isHostText_numberText_iff :
    x.IsHostText (numberText (.finite x)) ↔ x.steps = 0 ∨ x.InPlainRange := by
  by_cases h : x.steps = 0
  · have htext : numberText (.finite x) = "0" := if_pos (by simp [isZero, h])
    rw [IsHostText, if_pos h]
    exact ⟨fun _ => .inl h, fun _ => htext⟩
  · have hshortest := shortest_isShortest .up h
    rw [IsHostText, if_neg h, or_iff_right h, toList_numberText h]
    constructor
    · rintro ⟨d, hd, htext⟩
      have hsame : (x.shortest .up).positional false = d.hostNotation := by
        split at htext
        · exact (List.cons.inj htext).2
        · exact htext
      -- out of the range, the host writes a power of ten
      have hplain := Decimal.not_mem_positional hshortest.proper
      rw [hsame] at hplain
      rw [inPlainRange_iff_exponent hd]
      by_contra hrange
      exact hplain (Decimal.mem_hostNotation (by omega))
    · intro hrange
      obtain ⟨hlow, hhigh⟩ := (inPlainRange_iff_exponent hshortest).1 hrange
      exact ⟨_, hshortest, by
        rw [Decimal.positional_eq_hostNotation hshortest.proper hlow hhigh]⟩

/-! ### The first number beyond the range -/

/-- The double 10²¹, which is exactly that number. -/
def sextillion : Binary64.Finite where
  negative := false
  steps := 10 ^ 21 * stepsPerUnit
  representable := by
    unfold Representable stepLimit stepsPerUnit
    decide +kernel

theorem inUnits_one_sextillion : (Decimal.single '1' 21).inUnits = sextillion.units := by
  have hunits : sextillion.units = 10 ^ (21 + unitExponent) := by
    show 10 ^ 21 * stepsPerUnit * unitsPerStep = _
    rw [Nat.mul_assoc, stepsPerUnit_mul_unitsPerStep, ← Nat.pow_add]
  have hplace : (21 : Int) + unitExponent = (21 + unitExponent : Nat) := rfl
  rw [Decimal.inUnits_one, hunits, hplace, zpow_natCast, Nat.cast_pow, Nat.cast_ofNat]

/-- A decimal of one digit that is the number is a shortest one. -/
theorem shortest_one_sextillion : (Decimal.single '1' 21).Shortest sextillion where
  proper := Decimal.proper_single rfl (by decide) 21
  reads := by rw [Decimal.reads_iff, inUnits_one_sextillion, roundUnits_units]
  least := fun _ hproper _ => hproper.length_pos
  nearest := fun other _ _ _ => by
    rw [inUnits_one_sextillion, sub_self, abs_zero]
    exact abs_nonneg _

theorem steps_sextillion : sextillion.steps ≠ 0 :=
  Nat.mul_ne_zero (by decide) stepsPerUnit_pos.ne'

/-- Since one decimal of one digit is the number, no other is shortest. -/
theorem shortest_sextillion (tie : Tie) : sextillion.shortest tie = Decimal.single '1' 21 := by
  have hshortest := shortest_isShortest tie steps_sextillion
  have hone := shortest_one_sextillion
  have hlength : (sextillion.shortest tie).digits.length = 1 :=
    le_antisymm (hshortest.least _ hone.proper hone.reads) hshortest.proper.length_pos
  have hnearest := hshortest.nearest _ hone.proper hone.reads hlength.symm
  rw [inUnits_one_sextillion, sub_self, abs_zero] at hnearest
  refine Decimal.eq_single_one hshortest.proper hlength ?_
  rw [inUnits_one_sextillion]
  exact sub_eq_zero.1 (abs_nonpos_iff.1 hnearest)

theorem isHostText_sextillion : sextillion.IsHostText "1e+21" := by
  rw [IsHostText, if_neg steps_sextillion]
  exact ⟨_, shortest_one_sextillion, by decide⟩

theorem not_inPlainRange_sextillion : ¬ sextillion.InPlainRange := by
  rw [inPlainRange_iff_exponent shortest_one_sextillion]
  rintro ⟨-, hlt⟩
  exact absurd hlt (by decide)

theorem numberText_sextillion : numberText (.finite sextillion) = "1000000000000000000000" := by
  rw [← String.toList_inj, toList_numberText steps_sextillion, shortest_sextillion]
  decide

end PropertyValue

end DocTree
