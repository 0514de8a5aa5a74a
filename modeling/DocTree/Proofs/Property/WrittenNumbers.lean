import DocTree.Proofs.Json.RoundTrip
import DocTree.Proofs.Property.Equality

/-!
# Numbers of properties as they are written

A finite number of a property is written in one of two notations.  If it is an integer of at most 53
bits, it is taken for an integer of 64 bits and written in digits; any other number is written in the
form of a double, which has a point or a power of ten.

So the notation shows which of the two it is, and both are exact: the digits are those of the number
(`isNotation_written_iff`), and the form of a double reads back.  Two numbers are written alike exactly
if they are equal (`written_eq_iff`).
-/

namespace DocTree

/-! ### Integers in digits -/

namespace Numeral

/-- The text is the integer in digits: none before it that is zero, and a minus sign exactly if the
integer is negative. -/
def IsNotation (n : Int) (text : List Char) : Prop :=
  ∃ digits, WholeDigits digits ∧ ofDigits digits = n.natAbs ∧
    text = if n < 0 then '-' :: digits else digits

theorem isNotation_write (n : Json.Integer) : IsNotation n.val n.write :=
  ⟨_, wholeDigits_toDigits _, ofDigits_toDigits _, rfl⟩

/-- The sign and the digits are all there is in the text. -/
theorem IsNotation.isDigit_or_eq {n : Int} {text : List Char} (h : IsNotation n text) {c : Char}
    (hc : c ∈ text) : c.isDigit = true ∨ c = '-' := by
  obtain ⟨digits, ⟨⟨-, hdigits⟩, -⟩, -, rfl⟩ := h
  split at hc
  · rcases List.mem_cons.1 hc with rfl | hc
    · exact .inr rfl
    · exact .inl (hdigits c hc)
  · exact .inl (hdigits c hc)

/-- The text tells the integer. -/
theorem IsNotation.unique {n m : Int} {text : List Char} (hn : IsNotation n text)
    (hm : IsNotation m text) : n = m := by
  obtain ⟨digits, ⟨⟨-, hdigits⟩, -⟩, hvalue, rfl⟩ := hn
  obtain ⟨others, ⟨⟨-, hothers⟩, -⟩, hother, heq⟩ := hm
  -- a minus sign is no digit, so it shows the sign
  have hminus {chars rest : List Char} (h : ∀ c ∈ chars, c.isDigit = true) : chars ≠ '-' :: rest := by
    rintro rfl
    exact absurd (h '-' List.mem_cons_self) (by decide)
  by_cases hn : n < 0
  · by_cases hm : m < 0
    · rw [if_pos hn, if_pos hm, List.cons.injEq] at heq
      rw [heq.2] at hvalue
      omega
    · rw [if_pos hn, if_neg hm] at heq
      exact absurd heq.symm (hminus hothers)
  · by_cases hm : m < 0
    · rw [if_neg hn, if_pos hm] at heq
      exact absurd heq (hminus hdigits)
    · rw [if_neg hn, if_neg hm] at heq
      rw [heq] at hvalue
      omega

/-- A numeral with a point or a power of ten shows one of them. -/
theorem Written.exists_mark {w : Written} {negative : Bool} (h : (w.toNumeral negative).plain = false) :
    ∃ c ∈ w.write, c ∈ ['.', 'e', 'E'] := by
  rw [write]
  cases hfraction : w.fraction with
  | some digits => exact ⟨'.', by simp [fractionText], by decide⟩
  | none =>
    cases hpower : w.power with
    | some power => exact ⟨'e', by simp [fractionText, powerText], by decide⟩
    | none => simp [toNumeral, hfraction, hpower] at h

end Numeral

/-- The form of a double always has a point or a power of ten. -/
theorem Json.exists_mark_floatLayout (x : Binary64.Finite) :
    ∃ c ∈ floatLayout.write x, c ∈ ['.', 'e', 'E'] := by
  obtain ⟨w, -, htext, hplain, -⟩ := Numeral.exists_written_magnitude (l := floatLayout) rfl x
  obtain ⟨c, hc, hmark⟩ := Numeral.Written.exists_mark (hplain x.negative)
  refine ⟨c, ?_, hmark⟩
  rw [Layout.write, htext]
  split
  · exact List.mem_cons_of_mem _ hc
  · exact hc

namespace Binary64.Finite

/-! ### Integers among the doubles -/

/-- The number is the integer. -/
def IsInt (x : Finite) (n : Int) : Prop := x.value = n * (stepsPerUnit : Int)

/-- The integer part of the number, with its sign. -/
def truncated (x : Finite) : Int := if x.negative then -(x.whole : Int) else x.whole

/-- The number taken for an integer of 64 bits: its integer part, or the nearest bound if that is out of
range. -/
def toInt64 (x : Finite) : Int := max (-2 ^ 63) (min x.truncated (2 ^ 63 - 1))

variable {x : Finite} {n : Int}

theorem IsInt.steps_eq (h : x.IsInt n) : x.steps = n.natAbs * stepsPerUnit := by
  have hsteps : x.steps = x.value.natAbs := by
    unfold value
    split <;> omega
  rw [hsteps, h, Int.natAbs_mul, Int.natAbs_natCast]

theorem IsInt.whole_eq (h : x.IsInt n) : x.whole = n.natAbs := by
  rw [whole, h.steps_eq, Nat.mul_div_cancel _ stepsPerUnit_pos]

theorem IsInt.isInteger (h : x.IsInt n) : x.isInteger = true := by
  rw [Finite.isInteger, h.steps_eq, Nat.mul_mod_left]
  rfl

theorem isInt_truncated (h : x.isInteger = true) : x.IsInt x.truncated := by
  have hsteps := whole_mul_stepsPerUnit h
  unfold IsInt value truncated
  split
  · rw [Int.neg_mul, ← hsteps, Int.natCast_mul]
  · rw [← hsteps, Int.natCast_mul]

theorem IsInt.unique {m : Int} (hn : x.IsInt n) (hm : x.IsInt m) : n = m := by
  have hpos : (stepsPerUnit : Int) ≠ 0 := Int.natCast_ne_zero.2 stepsPerUnit_pos.ne'
  exact Int.eq_of_mul_eq_mul_right hpos (hn.symm.trans hm)

theorem IsInt.truncated_eq (h : x.IsInt n) : x.truncated = n := (isInt_truncated h.isInteger).unique h

/-- An integer of at most 53 bits fits 64 bits, so it is not replaced by a bound. -/
theorem IsInt.toInt64_eq (h : x.IsInt n) (hn : n.natAbs ≤ PropertyValue.integerLimit) :
    x.toInt64 = n := by
  rw [toInt64, h.truncated_eq]
  unfold PropertyValue.integerLimit at hn
  omega

end Binary64.Finite

namespace PropertyValue

open Binary64 Binary64.Finite

variable {x y : Binary64.Finite} {n : Int}

/-! ### The two notations -/

theorem numberToJson_of_isInt (h : x.IsInt n) (hn : n.natAbs ≤ integerLimit) :
    ∃ i : Json.Integer, i.val = n ∧ numberToJson (.finite x) = .integer i := by
  rw [numberToJson, dif_pos ⟨h.isInteger, h.whole_eq.trans_le hn⟩]
  exact ⟨_, h.truncated_eq, rfl⟩

theorem numberToJson_of_not_isInt (h : ∀ n, x.IsInt n → integerLimit < n.natAbs) :
    numberToJson (.finite x) = .float x := by
  rw [numberToJson, dif_neg]
  rintro ⟨hinteger, hle⟩
  have hint := isInt_truncated hinteger
  have hlt := h _ hint
  rw [← hint.whole_eq] at hlt
  omega

/-- A finite number as it is written. -/
def written (x : Binary64.Finite) : List Char := (toJson (.number (.finite x))).write

theorem written_cases (x : Binary64.Finite) :
    (∃ n, x.IsInt n ∧ n.natAbs ≤ integerLimit ∧ Numeral.IsNotation n (written x)) ∨
      (∀ n, x.IsInt n → integerLimit < n.natAbs) ∧ written x = Json.floatLayout.write x := by
  by_cases h : ∃ n, x.IsInt n ∧ n.natAbs ≤ integerLimit
  · obtain ⟨n, hint, hn⟩ := h
    obtain ⟨i, rfl, hi⟩ := numberToJson_of_isInt hint hn
    refine .inl ⟨i.val, hint, hn, ?_⟩
    rw [written, toJson, hi, Json.write]
    exact Numeral.isNotation_write i
  · have hall : ∀ n, x.IsInt n → integerLimit < n.natAbs := by
      intro n hint
      exact Nat.lt_of_not_le fun hn => h ⟨n, hint, hn⟩
    refine .inr ⟨hall, ?_⟩
    rw [written, toJson, numberToJson_of_not_isInt hall, Json.write]

/-- What is written is an integer in digits exactly if the number is that integer and has at most 53
bits. -/
theorem isNotation_written_iff :
    Numeral.IsNotation n (written x) ↔ x.IsInt n ∧ n.natAbs ≤ integerLimit := by
  rcases written_cases x with ⟨m, hint, hm, hnotation⟩ | ⟨hall, hfloat⟩
  · constructor
    · intro h
      rw [h.unique hnotation]
      exact ⟨hint, hm⟩
    · rintro ⟨h, -⟩
      rwa [h.unique hint]
  · constructor
    · intro h
      -- a point or a power of ten is in no notation of an integer
      obtain ⟨c, hc, hmark⟩ := Json.exists_mark_floatLayout x
      rw [hfloat] at h
      have hdigit := h.isDigit_or_eq hc
      simp only [List.mem_cons, List.not_mem_nil, or_false] at hmark
      rcases hmark with rfl | rfl | rfl <;> simp at hdigit
    · rintro ⟨h, hn⟩
      exact absurd (hall n h) (Nat.not_lt.2 hn)

/-! ### Equal texts -/

theorem numberToJson_of_value_eq (h : x.value = y.value) :
    numberToJson (.finite x) = numberToJson (.finite y) := by
  by_cases hx : x.steps = 0
  · have hy : y.steps = 0 := by
      rw [steps_eq_zero_iff, ← h, ← steps_eq_zero_iff, hx]
    rw [numberToJson_of_steps_eq_zero hx, numberToJson_of_steps_eq_zero hy]
  · rw [eq_of_value_eq h hx]

/-- Numbers are written alike exactly if they are equal, the zeros of both signs included. -/
theorem written_eq_iff : written x = written y ↔ x.value = y.value := by
  constructor
  · intro h
    -- of the nearest doubles every one is read back
    have hread (z : Binary64.Finite) : Json.readAll (@Json.valueBy Empty Numeral.nearest? 0)
        (String.ofList (written z)) = .ok (numberToJson (.finite z)) :=
      Json.readAll_render_nearest (nesting_numberToJson (.finite z)).le
    have hjson : numberToJson (.finite x) = numberToJson (.finite y) := by
      have hx := hread x
      rw [h, hread y] at hx
      exact (Except.ok.inj hx).symm
    have hzero := numberOfJson?_numberToJson x
    rw [hjson, numberOfJson?_numberToJson y, Option.some.injEq, finite.injEq] at hzero
    rw [← value_unsignedZero x, ← hzero, value_unsignedZero]
  · intro h
    rw [written, written, toJson, toJson, numberToJson_of_value_eq h]

/-- **Numbers of properties are written exactly.**  By itself and in a list a finite number is written
alike.  What is written is the notation of an integer exactly if the number is that integer and not
beyond 2⁵³ - 1; the integer then fits 64 bits, and is zero for the zeros of both signs.  Every other
number is written in the form of a double, with a point or a power of ten.  Two numbers are written
alike exactly if they are equal. -/
theorem written_exact (x : Binary64.Finite) :
    (itemToJson (.number (.finite x))).write = written x ∧
    (∀ n : Int, Numeral.IsNotation n (written x) ↔ x.IsInt n ∧ n.natAbs ≤ 9007199254740991) ∧
    ((∃ n : Int, x.IsInt n ∧ n.natAbs ≤ 9007199254740991 ∧
        -2 ^ 63 ≤ x.truncated ∧ x.truncated < 2 ^ 63 ∧ x.toInt64 = n) ∨
      (∀ n : Int, x.IsInt n → 9007199254740991 < n.natAbs) ∧
        written x = Json.floatLayout.write x ∧ ∃ c ∈ written x, c ∈ ['.', 'e', 'E']) ∧
    (written x = ['0'] ↔ x.steps = 0) ∧
    ∀ y : Binary64.Finite, written x = written y ↔ x.value = y.value := by
  have hlimit : integerLimit = 9007199254740991 := by decide
  refine ⟨rfl, fun n => ?_, ?_, ?_, fun y => written_eq_iff⟩
  · rw [← hlimit]
    exact isNotation_written_iff
  · rcases written_cases x with ⟨n, hint, hn, -⟩ | ⟨hall, hfloat⟩
    · refine .inl ⟨n, hint, hlimit ▸ hn, ?_, ?_, hint.toInt64_eq hn⟩
      all_goals
        rw [hint.truncated_eq]
        omega
    · refine .inr ⟨hlimit ▸ hall, hfloat, ?_⟩
      rw [hfloat]
      exact Json.exists_mark_floatLayout x
  · have hzero : written (.zero false) = ['0'] := by
      rw [written, toJson, numberToJson_of_steps_eq_zero rfl]
      rfl
    rw [← hzero, written_eq_iff, steps_eq_zero_iff]
    rfl

end PropertyValue

end DocTree
