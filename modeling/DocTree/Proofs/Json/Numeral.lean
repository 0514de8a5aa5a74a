import DocTree.Json.Reader
import DocTree.Proofs.Binary64.ReadBack
import DocTree.Proofs.Reading

/-!
# Numbers that are read back

A number is written as a numeral (`Written`), behind a minus sign if it is negative.  Such a numeral is
read up to its end (`unsigned_write`).  An integer is written with its own digits, and a double with
those of its shortest decimal (`exists_written_magnitude`), so that the double is the nearest one to its
numeral (`Written.Shows.nearest?_eq`).
-/

namespace DocTree

namespace Numeral

/-! ### Digits -/

/-- A text of at least one digit. -/
def Digits (digits : List Char) : Prop := digits ≠ [] ∧ ∀ c ∈ digits, c.isDigit = true

/-- Digits before a point: a lone zero, or digits that do not begin with a zero. -/
def WholeDigits (digits : List Char) : Prop :=
  Digits digits ∧ (digits = ['0'] ∨ digits.head? ≠ some '0')

theorem digits_zero : Digits ['0'] := ⟨List.cons_ne_nil _ _, List.forall_mem_singleton.2 rfl⟩

theorem digits_toDigits (n : Nat) : Digits (Nat.toDigits 10 n) :=
  ⟨Nat.toDigits_ne_nil, fun _ hc => Nat.isDigit_of_mem_toDigits (by decide) (by decide) hc⟩

theorem ofDigits_toDigits (n : Nat) : ofDigits (Nat.toDigits 10 n) = n :=
  Nat.ofDigitChars_toDigits (by decide) (by decide)

theorem head?_toDigits {n : Nat} (h : 0 < n) : (Nat.toDigits 10 n).head? ≠ some '0' := by
  induction n using Nat.strongRecOn with
  | ind n ih =>
    by_cases hlt : n < 10
    · rw [Nat.toDigits_of_lt_base hlt]
      simp only [List.head?_cons, ne_eq, Option.some.injEq, Nat.digitChar_eq_zero]
      omega
    · have hd := ih (n / 10) (by omega) (by omega)
      obtain ⟨c, cs, hc⟩ := List.exists_cons_of_ne_nil (Nat.toDigits_ne_nil (b := 10) (n := n / 10))
      rw [Nat.toDigits_of_base_le (by decide) (by omega)]
      rw [hc] at hd ⊢
      exact hd

theorem wholeDigits_toDigits (n : Nat) : WholeDigits (Nat.toDigits 10 n) := by
  refine ⟨digits_toDigits n, ?_⟩
  by_cases h : n = 0
  · exact .inl (by rw [h, Nat.toDigits_zero])
  · exact .inr (head?_toDigits (Nat.pos_of_ne_zero h))

/-- Zeros behind digits are powers of ten. -/
theorem ofDigits_append_zeros (digits : List Char) (zeros : Nat) :
    ofDigits (digits ++ List.replicate zeros '0') = ofDigits digits * 10 ^ zeros := by
  change Nat.ofDigitChars 10 _ 0 = Nat.ofDigitChars 10 _ 0 * _
  rw [Nat.ofDigitChars_append, Nat.ofDigitChars_replicate_zero, Nat.mul_comm]

/-- Zeros before digits count for nothing. -/
theorem ofDigits_zeros_append (digits : List Char) (zeros : Nat) :
    ofDigits (List.replicate zeros '0' ++ digits) = ofDigits digits := by
  change Nat.ofDigitChars 10 _ 0 = Nat.ofDigitChars 10 _ 0
  rw [Nat.ofDigitChars_append, Nat.ofDigitChars_replicate_zero, Nat.mul_zero]

end Numeral

/-! ### Decimals -/

/-- The digits of a decimal of some units of 10⁻¹⁰⁷⁴ are those of the units, but for the zeros behind
them. -/
structure Decimal.Counts (d : Decimal) (units : Nat) : Prop where
  digits : Numeral.Digits d.digits
  head : d.digits.head? ≠ some '0'
  units_eq : ∃ zeros : Nat, Numeral.ofDigits d.digits * 10 ^ zeros = units ∧
    (zeros : Int) = d.exponent + 1 - d.digits.length + Binary64.unitExponent

/-- Of the digits of some units, only zeros at the end are dropped. -/
theorem Decimal.exists_zeros (units : Nat) : ∃ zeros,
    Nat.toDigits 10 units = (ofUnits units).digits ++ List.replicate zeros '0' := by
  have hsplit := congrArg List.reverse (List.takeWhile_append_dropWhile
    (p := (· == '0')) (l := (Nat.toDigits 10 units).reverse))
  have hall := List.all_takeWhile (p := (· == '0')) (l := (Nat.toDigits 10 units).reverse)
  rw [List.reverse_append, List.reverse_reverse] at hsplit
  refine ⟨((Nat.toDigits 10 units).reverse.takeWhile (· == '0')).length, hsplit.symm.trans ?_⟩
  refine congrArg ((ofUnits units).digits ++ ·) (List.eq_replicate_iff.2 ⟨List.length_reverse, ?_⟩)
  intro c hc
  simpa using List.all_eq_true.1 hall c (List.mem_reverse.1 hc)

theorem Decimal.counts_ofUnits {units : Nat} (h : 0 < units) : (ofUnits units).Counts units := by
  obtain ⟨zeros, hz⟩ := exists_zeros units
  have hvalue := Numeral.ofDigits_toDigits units
  rw [hz, Numeral.ofDigits_append_zeros] at hvalue
  have hne : (ofUnits units).digits ≠ [] := by
    intro hnil
    rw [hnil] at hvalue
    simp [Numeral.ofDigits] at hvalue
    omega
  obtain ⟨c, cs, hc⟩ := List.exists_cons_of_ne_nil hne
  refine ⟨⟨hne, fun d hd => ?_⟩, ?_, zeros, hvalue, ?_⟩
  · exact (Numeral.digits_toDigits units).2 d (by rw [hz]; exact List.mem_append_left _ hd)
  · have hhead := Numeral.head?_toDigits h
    rw [hz, hc] at hhead
    rw [hc]
    exact hhead
  · have hlength := congrArg List.length hz
    rw [List.length_append, List.length_replicate] at hlength
    have hexponent : (ofUnits units).exponent =
        ((Nat.toDigits 10 units).length : Int) - (Binary64.unitExponent + 1) := rfl
    rw [hexponent, hlength]
    omega

theorem Binary64.Finite.counts_shortest {x : Binary64.Finite} (tie : Tie) (h : x.steps ≠ 0) :
    (x.shortest tie).Counts (x.shortestUnits tie) := by
  rw [shortest]
  exact Decimal.counts_ofUnits (shortestUnits_pos tie h)

namespace Numeral

/-! ### Numerals and their text -/

/-- How a numeral is written behind its sign. -/
structure Written where
  whole : List Char
  /-- The digits behind the point, if there is one. -/
  fraction : Option (List Char)
  /-- The power of ten, if there is one: whether it is negative, and its digits. -/
  power : Option (Bool × List Char)

namespace Written

/-- The point and the digits behind it. -/
def fractionText : Option (List Char) → List Char
  | none => []
  | some digits => '.' :: digits

/-- The power of ten with its mark and its sign. -/
def powerText : Option (Bool × List Char) → List Char
  | none => []
  | some (minus, digits) => 'e' :: (if minus then '-' else '+') :: digits

/-- The text of the numeral. -/
def write (w : Written) : List Char := w.whole ++ (fractionText w.fraction ++ powerText w.power)

/-- The power of ten as a number. -/
def exponent : Option (Bool × List Char) → Int
  | none => 0
  | some (minus, digits) => if minus then -(ofDigits digits : Int) else ofDigits digits

/-- The numeral, taken apart. -/
def toNumeral (negative : Bool) (w : Written) : Numeral where
  negative := negative
  whole := w.whole
  fraction := w.fraction.getD []
  exponent := exponent w.power
  plain := w.fraction.isNone && w.power.isNone

/-- The parts consist of digits, as many as they must have. -/
structure Valid (w : Written) : Prop where
  whole : WholeDigits w.whole
  fraction : ∀ digits ∈ w.fraction, Digits digits
  power : ∀ p ∈ w.power, Digits p.2

end Written

/-- No numeral goes on with the text. -/
def Ends (rest : List Char) : Prop :=
  ∀ c ∈ rest.head?, c.isDigit = false ∧ c ∉ ['.'] ∧ c ∉ ['e', 'E']

/-! ### Reading numerals -/

variable {Reason : Type}

theorem someDigits_append {digits rest : List Char} (h : Digits digits)
    (hrest : ∀ c ∈ rest.head?, c.isDigit = false) :
    (someDigits : Reading Reason (List Char)) (digits ++ rest) = .ok (digits, rest) := by
  obtain ⟨c, digits, rfl⟩ := List.exists_cons_of_ne_nil h.1
  have hrun : ∀ d ∈ digits, d.isDigit = true := fun d hd => h.2 d (List.mem_cons_of_mem _ hd)
  have hnext : (Reading.next .value : Reading Reason Char) (c :: (digits ++ rest)) =
      .ok (c, digits ++ rest) := rfl
  rw [List.cons_append, someDigits, Reading.bind_of_ok hnext, if_pos (h.2 c List.mem_cons_self),
    Reading.bind_of_ok (Reading.takeWhile_append hrun hrest)]
  rfl

theorem wholeDigits_append {digits rest : List Char} (h : WholeDigits digits)
    (hrest : ∀ c ∈ rest.head?, c.isDigit = false) :
    (Json.wholeDigits : Reading Reason (List Char)) (digits ++ rest) = .ok (digits, rest) := by
  have hbare : (wholeDigits : Reading Reason (List Char)) (digits ++ rest) = .ok (digits, rest) := by
    obtain ⟨⟨hne, hall⟩, hzero⟩ := h
    obtain ⟨c, digits, rfl⟩ := List.exists_cons_of_ne_nil hne
    have hnext : (Reading.next .value : Reading Reason Char) (c :: (digits ++ rest)) =
        .ok (c, digits ++ rest) := rfl
    rw [List.cons_append, wholeDigits, Reading.bind_of_ok hnext]
    by_cases hc : c = '0'
    · subst hc
      have hnil : digits = [] := by simpa using hzero
      subst hnil
      rfl
    · have hrun : ∀ d ∈ digits, d.isDigit = true := fun d hd => hall d (List.mem_cons_of_mem _ hd)
      rw [if_neg hc, if_pos (hall c List.mem_cons_self),
        Reading.bind_of_ok (Reading.takeWhile_append hrun hrest)]
      rfl
  -- the digit behind a leading zero would be one more of the run
  have hpeek : (Reading.peek : Reading Reason (Option Char)) rest = .ok (rest.head?, rest) := rfl
  have hfollowing : ¬ (digits = ['0'] ∧ rest.head?.any Char.isDigit = true) := by
    rintro ⟨-, hany⟩
    cases hh : rest.head? with
    | none => simp [hh] at hany
    | some c => simp [hh, hrest c hh] at hany
  rw [Json.wholeDigits, Reading.bind_of_ok hbare, Reading.bind_of_ok hpeek, if_neg hfollowing]
  rfl

theorem optionalFraction_append {fraction : Option (List Char)} {rest : List Char}
    (h : ∀ digits ∈ fraction, Digits digits)
    (hrest : ∀ c ∈ rest.head?, c.isDigit = false ∧ c ∉ ['.']) :
    (optionalFraction : Reading Reason (Option (List Char)))
      (Written.fractionText fraction ++ rest) = .ok (fraction, rest) := by
  cases fraction with
  | none =>
    have hnone : (Reading.takeIf ['.'] : Reading Reason (Option Char)) rest = .ok (none, rest) :=
      Reading.takeIf_of_not_mem fun c hc => (hrest c hc).2
    rw [Written.fractionText, List.nil_append, optionalFraction, Reading.bind_of_ok hnone]
    rfl
  | some digits =>
    have hsome : (Reading.takeIf ['.'] : Reading Reason (Option Char)) ('.' :: (digits ++ rest)) =
        .ok (some '.', digits ++ rest) := Reading.takeIf_of_mem (by decide) _
    have hdigits := @someDigits_append Reason _ _ (h digits rfl) fun c hc => (hrest c hc).1
    rw [Written.fractionText, List.cons_append, optionalFraction, Reading.bind_of_ok hsome]
    dsimp only
    rw [Reading.bind_of_ok hdigits]
    rfl

theorem optionalExponent_append {power : Option (Bool × List Char)} {rest : List Char}
    (h : ∀ p ∈ power, Digits p.2) (hrest : Ends rest) :
    ∃ e, (optionalExponent : Reading Reason (Option Int)) (Written.powerText power ++ rest) =
      .ok (e, rest) ∧ e.isNone = power.isNone ∧ e.getD 0 = Written.exponent power := by
  cases power with
  | none =>
    -- what comes behind does not look like a power of ten
    have hnone : (Reading.takeIf ['e', 'E'] : Reading Reason (Option Char)) rest =
        .ok (none, rest) := Reading.takeIf_of_not_mem fun c hc => (hrest c hc).2.2
    refine ⟨none, ?_, rfl, rfl⟩
    rw [Written.powerText, List.nil_append, optionalExponent, Reading.bind_of_ok hnone]
    rfl
  | some p =>
    obtain ⟨minus, digits⟩ := p
    have hmark : ∀ text, (Reading.takeIf ['e', 'E'] : Reading Reason (Option Char)) ('e' :: text) =
        .ok (some 'e', text) := Reading.takeIf_of_mem (by decide)
    have hsign : (Reading.takeIf ['-', '+'] : Reading Reason (Option Char))
        ((if minus then '-' else '+') :: (digits ++ rest)) =
          .ok (some (if minus then '-' else '+'), digits ++ rest) :=
      Reading.takeIf_of_mem (by cases minus <;> decide) _
    have hdigits := @someDigits_append Reason _ _ (h (minus, digits) rfl)
      fun c hc => (hrest c hc).1
    refine ⟨some (Written.exponent (some (minus, digits))), ?_, rfl, rfl⟩
    rw [Written.powerText, List.cons_append, List.cons_append, optionalExponent,
      Reading.bind_of_ok (hmark _)]
    dsimp only
    rw [Reading.bind_of_ok hsign, Reading.bind_of_ok hdigits]
    cases minus <;> rfl

/-- A numeral is read up to its end. -/
theorem unsigned_write {w : Written} (h : w.Valid) (negative : Bool) {rest : List Char}
    (hrest : Ends rest) :
    (unsigned negative Json.wholeDigits : Reading Reason Numeral) (w.write ++ rest) =
      .ok (w.toNumeral negative, rest) := by
  -- each part ends where the next one begins
  have hpower : ∀ c ∈ (Written.powerText w.power ++ rest).head?, c.isDigit = false ∧ c ∉ ['.'] := by
    cases w.power with
    | none => exact fun c hc => ⟨(hrest c hc).1, (hrest c hc).2.1⟩
    | some p => rintro c ⟨⟩; decide
  have hfraction : ∀ c ∈ (Written.fractionText w.fraction ++
      (Written.powerText w.power ++ rest)).head?, c.isDigit = false := by
    cases w.fraction with
    | none => exact fun c hc => (hpower c hc).1
    | some digits => rintro c ⟨⟩; decide
  obtain ⟨e, he, hnone, hvalue⟩ := @optionalExponent_append Reason _ _ h.power hrest
  rw [Written.write, List.append_assoc, List.append_assoc, unsigned,
    Reading.bind_of_ok (wholeDigits_append h.whole hfraction),
    Reading.bind_of_ok (optionalFraction_append h.fraction hpower), Reading.bind_of_ok he]
  change Except.ok (_, rest) = _
  rw [hnone, hvalue]
  rfl

/-- A text is the text of one numeral. -/
theorem Written.toNumeral_eq_of_write_eq {w w' : Written} (h : w.Valid) (h' : w'.Valid)
    (heq : w.write = w'.write) (negative : Bool) : w.toNumeral negative = w'.toNumeral negative := by
  have hread := @unsigned_write Empty _ h negative [] (by rintro c ⟨⟩)
  rw [heq, unsigned_write h' negative (by rintro c ⟨⟩)] at hread
  exact (Prod.mk.inj (Except.ok.inj hread)).1.symm

/-! ### The numeral of a double -/

/-- The digits of the numeral are those of the decimal, but for zeros around them, and it has the
power of ten that makes up for the given number of zeros behind them. -/
structure Says (n : Numeral) (d : Decimal) (zeros : Nat) : Prop where
  digits : ofDigits (n.whole ++ n.fraction) = ofDigits d.digits * 10 ^ zeros
  place : n.exponent - n.fraction.length = d.exponent + 1 - d.digits.length - zeros

/-- What is written for a number of units is next to that number of units. -/
theorem nearest?_eq_ofRatio? {n : Numeral} {d : Decimal} {units behind : Nat}
    (h : n.Says d behind) (hd : d.Counts units) :
    n.nearest? = Binary64.Finite.ofRatio? n.negative units Binary64.Finite.unitsPerStep := by
  obtain ⟨hdigits, hexponent⟩ := h
  obtain ⟨zeros, hunits, hzeros⟩ := hd.units_eq
  refine Binary64.Finite.ofDecimal?_of_units n.negative (a := zeros) (b := behind) ?_ ?_
  · rw [hdigits, ← hunits]
    exact Nat.mul_right_comm ..
  · omega

/-- The text is a numeral with a point and without a power of ten that says the decimal, with zeros
behind its digits only up to the place behind the point. -/
def Pointed (d : Decimal) (text : List Char) : Prop :=
  ∃ whole fraction zeros, text = whole ++ '.' :: fraction ∧ WholeDigits whole ∧ Digits fraction ∧
    (∀ negative, (Written.toNumeral negative ⟨whole, some fraction, none⟩).Says d zeros) ∧
    (zeros = 0 ∨ (d.digits.length + zeros : Int) = d.exponent + 2)

section Pointed

variable {d : Decimal} {units : Nat}

theorem isDigit_of_mem_zeros {k : Nat} {c : Char} (h : c ∈ List.replicate k '0') :
    c.isDigit = true := by
  rw [(List.mem_replicate.1 h).2]
  decide

/-- Below one there are zeros before the digits, also one before the point. -/
theorem pointed_of_neg (h : d.Counts units) (hneg : d.exponent < 0) :
    Pointed d (d.positional true) := by
  obtain ⟨⟨hne, hall⟩, -, -⟩ := h
  rw [Decimal.positional_of_neg hneg]
  refine ⟨['0'], List.replicate ((-d.exponent).toNat - 1) '0' ++ d.digits, 0, rfl,
    ⟨digits_zero, .inl rfl⟩, ⟨by simp [hne], fun c hmem => ?_⟩, fun _ => ⟨?_, ?_⟩, .inl rfl⟩
  · exact (List.mem_append.1 hmem).elim isDigit_of_mem_zeros (hall c)
  · have hz : ['0'] ++ (List.replicate ((-d.exponent).toNat - 1) '0' ++ d.digits) =
        List.replicate ((-d.exponent).toNat - 1 + 1) '0' ++ d.digits := by
      rw [List.replicate_succ]
      rfl
    simp only [Written.toNumeral, Option.getD_some, hz, ofDigits_zeros_append, Nat.pow_zero,
      Nat.mul_one]
  · simp only [Written.toNumeral, Option.getD_some, Written.exponent, List.length_append,
      List.length_replicate]
    omega

/-- Where no digit is left for the fraction, there are zeros behind the digits, also one behind the
point. -/
theorem pointed_of_whole (h : d.Counts units) (hneg : ¬ d.exponent < 0)
    (hlong : d.digits.length ≤ d.exponent.toNat + 1) : Pointed d (d.positional true) := by
  obtain ⟨⟨hne, hall⟩, hhead, -⟩ := h
  obtain ⟨c, cs, hc⟩ := List.exists_cons_of_ne_nil hne
  rw [Decimal.positional_of_whole hneg hlong, ← List.append_assoc]
  refine ⟨_, ['0'], d.exponent.toNat + 1 - d.digits.length + 1, rfl,
    ⟨⟨by simp [hne], fun c hmem => ?_⟩, .inr ?_⟩, digits_zero, fun _ => ⟨?_, ?_⟩, .inr (by omega)⟩
  · exact (List.mem_append.1 hmem).elim (hall c) isDigit_of_mem_zeros
  · rw [hc] at hhead ⊢
    exact hhead
  · -- the zero behind the point is one more of the zeros behind the digits
    have hz : d.digits ++ List.replicate (d.exponent.toNat + 1 - d.digits.length) '0' ++ ['0'] =
        d.digits ++ List.replicate (d.exponent.toNat + 1 - d.digits.length + 1) '0' := by
      rw [List.replicate_succ', List.append_assoc]
    simp only [Written.toNumeral, Option.getD_some, hz, ofDigits_append_zeros]
  · simp only [Written.toNumeral, Option.getD_some, Written.exponent, List.length_singleton]
    omega

/-- Else the point stands among the digits. -/
theorem pointed_of_split (h : d.Counts units) (hneg : ¬ d.exponent < 0)
    (hlt : d.exponent.toNat + 1 < d.digits.length) : Pointed d (d.positional true) := by
  obtain ⟨⟨hne, hall⟩, hhead, -⟩ := h
  obtain ⟨c, cs, hc⟩ := List.exists_cons_of_ne_nil hne
  have hdrop : d.digits.drop (d.exponent.toNat + 1) ≠ [] :=
    mt List.drop_eq_nil_iff.1 (Nat.not_le.2 hlt)
  rw [Decimal.positional_of_split hneg hlt]
  refine ⟨d.digits.take (d.exponent.toNat + 1), d.digits.drop (d.exponent.toNat + 1), 0, rfl,
    ⟨⟨?_, fun c hmem => hall c (List.mem_of_mem_take hmem)⟩, .inr ?_⟩,
    ⟨hdrop, fun c hmem => hall c (List.mem_of_mem_drop hmem)⟩, fun _ => ⟨?_, ?_⟩, .inl rfl⟩
  · rw [hc]
    exact List.cons_ne_nil _ _
  · rw [hc] at hhead ⊢
    exact hhead
  · simp only [Written.toNumeral, Option.getD_some, List.take_append_drop, Nat.pow_zero,
      Nat.mul_one]
  · simp only [Written.toNumeral, Option.getD_some, Written.exponent, List.length_drop]
    omega

/-- The numeral of a decimal with the point among its digits. -/
theorem pointed_positional (h : d.Counts units) : Pointed d (d.positional true) := by
  by_cases hneg : d.exponent < 0
  · exact pointed_of_neg h hneg
  · by_cases hlong : d.digits.length ≤ d.exponent.toNat + 1
    · exact pointed_of_whole h hneg hlong
    · exact pointed_of_split h hneg (Nat.lt_of_not_le hlong)

end Pointed

/-- The power of ten of a decimal, as it is written behind the digits. -/
def scientificPower (d : Decimal) : Bool × List Char :=
  (decide (d.exponent < 0), Nat.toDigits 10 d.exponent.natAbs)

theorem powerText_scientificPower (d : Decimal) : Written.powerText (some (scientificPower d)) =
    'e' :: (if d.exponent < 0 then '-' else '+') :: Nat.toDigits 10 d.exponent.natAbs := by
  by_cases hneg : d.exponent < 0 <;> simp [scientificPower, Written.powerText, hneg]

theorem exponent_scientificPower (d : Decimal) :
    Written.exponent (some (scientificPower d)) = d.exponent := by
  simp only [scientificPower, Written.exponent, ofDigits_toDigits, decide_eq_true_eq]
  split <;> omega

/-- Behind one digit before the point, the power of ten is that of the decimal. -/
theorem says_scientific {d : Decimal} {first : Char} {fraction : Option (List Char)}
    (hd : d.digits = first :: fraction.getD []) (negative : Bool) :
    (Written.toNumeral negative ⟨[first], fraction, some (scientificPower d)⟩).Says d 0 := by
  refine ⟨?_, ?_⟩
  · simp [Written.toNumeral, hd]
  · simp only [Written.toNumeral, exponent_scientificPower, hd, List.length_cons]
    omega

/-- The numeral of a decimal with a power of ten. -/
theorem scientific_written {d : Decimal} {units : Nat} (h : d.Counts units) :
    ∃ w : Written, w.Valid ∧ d.scientific = w.write ∧ w.power.isSome = true ∧
      ∀ negative, (w.toNumeral negative).Says d 0 := by
  obtain ⟨⟨hne, hall⟩, hhead, -⟩ := h
  obtain ⟨first, others, hd⟩ := List.exists_cons_of_ne_nil hne
  rw [hd] at hall hhead
  have hfirst : WholeDigits [first] :=
    ⟨⟨by simp, fun c hc => hall c (by simp_all)⟩, .inr (by simpa using hhead)⟩
  have hpower : ∀ p ∈ some (scientificPower d), Digits p.2 := by
    rintro p ⟨⟩
    exact digits_toDigits _
  -- there is a point only if a digit is left to stand behind it
  cases others with
  | nil =>
    refine ⟨⟨[first], none, some (scientificPower d)⟩, ⟨hfirst, by simp, hpower⟩, ?_, rfl,
      says_scientific hd⟩
    rw [Decimal.scientific, hd, Written.write, powerText_scientificPower]
    rfl
  | cons second others =>
    refine ⟨⟨[first], some (second :: others), some (scientificPower d)⟩, ⟨hfirst, ?_, hpower⟩, ?_,
      rfl, says_scientific hd⟩
    · rintro digits ⟨⟩
      exact ⟨by simp, fun c hc => hall c (List.mem_cons_of_mem _ hc)⟩
    · rw [Decimal.scientific, hd, Written.write, powerText_scientificPower]
      rfl

/-- What the numeral of a double shows: a zero has a zero on either side of the point, and every other
number the digits of its shortest decimal, behind which zeros stand only up to the place behind the
point. -/
inductive Written.Shows (l : Layout) (x : Binary64.Finite) (w : Written) : Prop
  | zero (hx : x.steps = 0) (hw : w = ⟨['0'], some ['0'], none⟩)
  | digits (hx : x.steps ≠ 0) (zeros : Nat)
    (tells : ∀ negative, (w.toNumeral negative).Says (x.shortest l.tie) zeros)
    (few : zeros = 0 ∨ l.positional (x.shortest l.tie).exponent = true ∧
      ((x.shortest l.tie).digits.length + zeros : Int) = (x.shortest l.tie).exponent + 2)

/-- **The numeral that is written for a double shows it**, and has a point or a power of ten. -/
theorem exists_written_magnitude {l : Layout} (hl : l.wholePoint = true) (x : Binary64.Finite) :
    ∃ w : Written, w.Valid ∧ l.magnitude x = w.write ∧
      (∀ negative, (w.toNumeral negative).plain = false) ∧ w.Shows l x := by
  unfold Layout.magnitude
  by_cases hx : x.steps = 0
  · -- a zero has no digits to count, so it is written by itself
    rw [if_pos hx, if_pos hl]
    refine ⟨⟨['0'], some ['0'], none⟩, ⟨⟨digits_zero, .inl rfl⟩, ?_, by simp⟩, rfl, fun _ => rfl,
      .zero hx rfl⟩
    rintro digits ⟨⟩
    exact digits_zero
  · rw [if_neg hx]
    have hcounts := Binary64.Finite.counts_shortest l.tie hx
    by_cases hp : l.positional (x.shortest l.tie).exponent = true
    · rw [if_pos hp, hl]
      obtain ⟨whole, fraction, zeros, htext, hwhole, hfraction, hread, hzeros⟩ :=
        pointed_positional hcounts
      refine ⟨⟨whole, some fraction, none⟩, ⟨hwhole, ?_, by simp⟩, ?_, fun _ => rfl,
        .digits hx zeros hread (hzeros.imp_right fun h => ⟨hp, h⟩)⟩
      · rintro digits ⟨⟩
        exact hfraction
      · rw [htext, Written.write, Written.fractionText, Written.powerText, List.append_nil]
    · rw [if_neg hp]
      obtain ⟨w, hvalid, htext, hpower, hread⟩ := scientific_written hcounts
      refine ⟨w, hvalid, htext, fun _ => ?_, .digits hx 0 hread (.inl rfl)⟩
      obtain ⟨p, hp⟩ := Option.isSome_iff_exists.1 hpower
      simp [Written.toNumeral, hp]

/-- The double is the nearest one to its numeral. -/
theorem Written.Shows.nearest?_eq {l : Layout} {x : Binary64.Finite} {w : Written}
    (h : w.Shows l x) : (w.toNumeral x.negative).nearest? = some x := by
  cases h with
  | zero hx hw =>
    have hzero : x = .zero x.negative := by
      obtain ⟨negative, steps, hr⟩ := x
      subst hx
      rfl
    subst hw
    rw [nearest?, Binary64.Finite.ofDecimal?, if_pos (by rfl)]
    exact congrArg some hzero.symm
  | digits hx zeros tells few =>
    have hback := Binary64.Finite.readsBack_iff.1 (Binary64.Finite.readsBack_shortestUnits l.tie x)
    exact (nearest?_eq_ofRatio? (tells x.negative) (Binary64.Finite.counts_shortest l.tie hx)).trans
      hback

end Numeral

end DocTree
