import DocTree.Proofs.Binary64.Decimal

/-!
# Shortest decimals

`Finite.shortest` looks for a decimal with 1, 2, … 17 digits on the grid that so many digits make, and
only at the two neighbours of the magnitude.  Nothing is missed by that
(`Finite.shortest_isShortest`): a decimal of so few digits that reads back has one of the neighbours
between itself and the magnitude (`Decimal.Proper.inUnits_le_or_le`), which then reads back too and is
not farther.  Seventeen digits are always enough (`Finite.isSome_onGrid?_of_fine`), so the search never
falls back to the magnitude with all its digits.
-/

namespace DocTree

/-- The decimal is one of the shortest that read back as the number, and of these one of the nearest. -/
structure Decimal.Shortest (d : Decimal) (x : Binary64.Finite) : Prop where
  proper : d.Proper
  reads : d.Reads x
  least : ∀ other : Decimal, other.Proper → other.Reads x → d.digits.length ≤ other.digits.length
  nearest : ∀ other : Decimal, other.Proper → other.Reads x →
    other.digits.length = d.digits.length → |d.inUnits - x.units| ≤ |other.inUnits - x.units|

namespace Decimal

/-! ### Decimals of few digits -/

variable {d : Decimal} {units width : Nat}

/-- Between the neighbours of a magnitude on a grid there is no other decimal of as few digits: what
counts finer places is smaller than the magnitude as far as it counts the first place. -/
theorem Proper.inUnits_le_or_le (h : d.Proper) (hunits : 10 ^ (width - 1) ≤ units)
    (hlength : d.digits.length ≤ width) :
    d.inUnits ≤ (units / 10 ^ (width - d.digits.length) * 10 ^ (width - d.digits.length) : Nat) ∨
      (units / 10 ^ (width - d.digits.length) * 10 ^ (width - d.digits.length) +
        10 ^ (width - d.digits.length) : Nat) ≤ d.inUnits := by
  have hpos := h.length_pos
  by_cases hplace : ((width - d.digits.length : Nat) : Int) ≤ d.lastPlace + Binary64.unitExponent
  · -- the decimal is on the grid
    obtain ⟨finer, hfiner⟩ := Int.le.dest hplace
    have hunits : d.inUnits =
        (Numeral.ofDigits d.digits * 10 ^ finer * 10 ^ (width - d.digits.length) : Nat) := by
      rw [inUnits, ← hfiner, zpow_add₀ (by norm_num), zpow_natCast, zpow_natCast]
      push_cast
      ring
    rw [hunits, Nat.cast_le, Nat.cast_le]
    generalize 10 ^ (width - d.digits.length) = grid
    rcases Nat.lt_or_ge (units / grid) (Numeral.ofDigits d.digits * 10 ^ finer) with hlt | hge
    · right
      rw [← Nat.succ_mul]
      exact Nat.mul_le_mul_right _ hlt
    · exact .inl (Nat.mul_le_mul_right _ hge)
  · left
    have hle : 10 ^ (width - 1) ≤
        units / 10 ^ (width - d.digits.length) * 10 ^ (width - d.digits.length) := by
      have hsplit : 10 ^ (width - 1) = 10 ^ (d.digits.length - 1) * 10 ^ (width - d.digits.length) := by
        rw [← Nat.pow_add]
        exact congrArg (10 ^ ·) (by omega)
      rw [hsplit] at hunits ⊢
      exact Nat.mul_le_mul_right _ ((Nat.le_div_iff_mul_le (Nat.pow_pos (by decide))).2 hunits)
    calc d.inUnits ≤ (10 : ℚ) ^ (d.exponent + 1 + Binary64.unitExponent) := h.bounds.2.le
      _ ≤ (10 : ℚ) ^ ((width - 1 : Nat) : Int) := by
        refine zpow_le_zpow_right₀ (by norm_num) ?_
        unfold lastPlace at hplace
        omega
      _ = (10 ^ (width - 1) : Nat) := by rw [zpow_natCast, Nat.cast_pow, Nat.cast_ofNat]
      _ ≤ _ := Nat.cast_le.2 hle

/-! ### Digits on a grid -/

/-- The last of the digits is not zero. -/
theorem ofDigits_mod_ten {units : Nat} (h : 0 < units) :
    Numeral.ofDigits (ofUnits units).digits % 10 ≠ 0 := by
  obtain ⟨hne, hall⟩ := (counts_ofUnits h).digits
  obtain ⟨front, c, hlast⟩ : ∃ front c, (ofUnits units).digits = front ++ [c] :=
    ⟨_, _, (List.dropLast_concat_getLast hne).symm⟩
  -- zeros at the end have been dropped
  have hzero : c ≠ '0' := by
    have hhead := List.head?_dropWhile_not (· == '0') (Nat.toDigits 10 units).reverse
    have hreverse : (Nat.toDigits 10 units).reverse.dropWhile (· == '0') = c :: front.reverse := by
      rw [← List.reverse_inj, List.reverse_cons, List.reverse_reverse, ← hlast]
      rfl
    rw [hreverse] at hhead
    simpa using hhead
  have hdigit : c.isDigit = true := by
    refine hall c ?_
    rw [hlast]
    exact List.mem_append_right _ (List.mem_singleton.2 rfl)
  have hpos := Numeral.digit_pos hdigit hzero
  have hlt := Numeral.digit_lt_ten hdigit
  rw [hlast, Numeral.ofDigits_concat]
  omega

/-- What stands on a grid has no digits beyond it. -/
theorem length_digits_ofUnits_le {units width digits : Nat} (hpos : 0 < units)
    (hle : units ≤ 10 ^ width) (hdvd : 10 ^ (width - digits) ∣ units) (hdigits : 0 < digits)
    (hwidth : digits ≤ width) : (ofUnits units).digits.length ≤ digits := by
  have hcounts := counts_ofUnits hpos
  have hmod := ofDigits_mod_ten hpos
  obtain ⟨zeros, hunits, -⟩ := hcounts.units_eq
  have hfirst := Numeral.le_ofDigits hcounts.digits hcounts.head
  generalize Numeral.ofDigits (ofUnits units).digits = value at *
  generalize (ofUnits units).digits.length = length at *
  have hzeros : width - digits ≤ zeros := Nat.le_of_not_lt fun hlt => by
    have hten : 10 ^ zeros * 10 ∣ 10 ^ zeros * value := by
      rw [← Nat.pow_succ, Nat.mul_comm _ value, hunits]
      exact (Nat.pow_dvd_pow 10 hlt).trans hdvd
    exact hmod (Nat.mod_eq_zero_of_dvd (Nat.dvd_of_mul_dvd_mul_left (Nat.pow_pos (by decide)) hten))
  have hvalue : value ≤ 10 ^ digits := by
    have h : value * 10 ^ (width - digits) ≤ 10 ^ digits * 10 ^ (width - digits) :=
      calc value * 10 ^ (width - digits) ≤ value * 10 ^ zeros :=
            Nat.mul_le_mul_left _ (Nat.pow_le_pow_right (by decide) hzeros)
        _ ≤ 10 ^ width := hunits.trans_le hle
        _ = 10 ^ digits * 10 ^ (width - digits) := by rw [← Nat.pow_add, Nat.add_sub_cancel' hwidth]
    exact Nat.le_of_mul_le_mul_right h (Nat.pow_pos (by decide))
  -- a digit more would make it the next power of ten, which ends in zero
  refine Nat.le_of_not_lt fun hlt => hmod ?_
  have hpower : 10 ^ digits ≤ value := (Nat.pow_le_pow_right (by decide) (by omega)).trans hfirst
  rw [le_antisymm hvalue hpower]
  exact Nat.mod_eq_zero_of_dvd (dvd_pow_self 10 hdigits.ne')

end Decimal

namespace Binary64.Finite

variable {x : Finite} {tie : Tie} {units grid picked : Nat}

/-! ### Neighbours on a grid -/

theorem isSome_pickNeighbour?_iff {belowFits aboveFits : Bool} :
    (pickNeighbour? tie units grid belowFits aboveFits).isSome = true ↔
      belowFits = true ∨ aboveFits = true := by
  cases belowFits with
  | false => cases aboveFits <;> simp [pickNeighbour?]
  | true =>
    cases aboveFits with
    | false => simp [pickNeighbour?]
    | true =>
      simp only [pickNeighbour?, true_or, iff_true]
      split
      · rfl
      · split
        · rfl
        · cases tie with
          | toEven =>
            simp only
            split <;> rfl
          | up => rfl

theorem isSome_onGrid?_iff : (x.onGrid? tie grid).isSome = true ↔
    x.readsBack (x.units / grid * grid) = true ∨ x.readsBack (x.units / grid * grid + grid) = true :=
  isSome_pickNeighbour?_iff

/-- What is picked is as near as the neighbours that may be taken. -/
theorem abs_sub_le_of_pickNeighbour? {belowFits aboveFits : Bool} (hgrid : 0 < grid)
    (h : pickNeighbour? tie units grid belowFits aboveFits = some picked) :
    (belowFits = true → |(picked : ℚ) - units| ≤ units - (units / grid * grid : Nat)) ∧
      (aboveFits = true → |(picked : ℚ) - units| ≤ (units / grid * grid + grid : Nat) - units) := by
  have hbelow : units / grid * grid ≤ units := Nat.div_mul_le_self units grid
  have habove : units ≤ units / grid * grid + grid := (Nat.lt_div_mul_add hgrid).le
  have hpicked := fits_of_pickNeighbour? h
  generalize units / grid * grid = below at *
  generalize below + grid = above at *
  rw [← Nat.cast_sub hbelow, ← Nat.cast_sub habove]
  rcases hpicked with ⟨-, rfl, hnearer⟩ | ⟨-, rfl, hnearer⟩
  · rw [abs_sub_comm, ← Nat.cast_sub hbelow, Nat.abs_cast, Nat.cast_le, Nat.cast_le]
    exact ⟨fun _ => le_refl _, hnearer⟩
  · rw [← Nat.cast_sub habove, Nat.abs_cast, Nat.cast_le, Nat.cast_le]
    exact ⟨hnearer, fun _ => le_refl _⟩

/-- What is nearer to a magnitude than 2⁻⁵⁴ of it reads back. -/
theorem readsBack_of_near (habove : 2 ^ 54 * units < (2 ^ 54 + 1) * x.units)
    (hbelow : (2 ^ 54 - 1) * x.units < 2 ^ 54 * units) : x.readsBack units = true := by
  have hpos : 0 < x.steps := Nat.pos_of_ne_zero fun h => by
    simp [Finite.units, h] at habove
  rw [readsBack_iff, ofRatio?_eq_some_iff]
  exact ⟨rfl, (roundSteps_eq_of_near x.representable hpos habove hbelow).symm⟩

/-- Seventeen digits are enough: one of the neighbours among the decimals of so many digits is nearer
than 2⁻⁵⁴ of the magnitude. -/
theorem isSome_onGrid?_of_fine (hgrid : 0 < grid) (h : 10 ^ 16 * grid ≤ x.units) :
    (x.onGrid? tie grid).isSome = true := by
  have hdiv := Nat.div_add_mod x.units grid
  have hmod := Nat.mod_lt x.units hgrid
  rw [Nat.mul_comm] at hdiv
  rw [isSome_onGrid?_iff]
  generalize x.units / grid * grid = below at *
  generalize x.units % grid = rest at *
  by_cases hrest : 2 * rest ≤ grid
  · exact .inl (readsBack_of_near (by omega) (by omega))
  · exact .inr (readsBack_of_near (by omega) (by omega))

/-- A decimal that reads back has a neighbour of the magnitude between itself and the magnitude, on the
grid of as many digits, and that reads back too. -/
theorem readsBack_neighbour {d : Decimal} {width : Nat} (hd : d.Proper) (hreads : d.Reads x)
    (hunits : 10 ^ (width - 1) ≤ x.units) (hlength : d.digits.length ≤ width)
    (hgrid : 10 ^ (width - d.digits.length) = grid) :
    (d.inUnits ≤ (x.units / grid * grid : Nat) ∧ x.readsBack (x.units / grid * grid) = true) ∨
      ((x.units / grid * grid + grid : Nat) ≤ d.inUnits ∧
        x.readsBack (x.units / grid * grid + grid) = true) := by
  have hpos : 0 < grid := hgrid ▸ Nat.pow_pos (by decide)
  have hround := Decimal.reads_iff.1 hreads
  rcases hd.inUnits_le_or_le hunits hlength with hle | hge
  · rw [hgrid] at hle
    refine .inl ⟨hle, readsBack_iff_roundUnits.2 ?_⟩
    exact roundUnits_eq_of_between d.inUnits_nonneg hround
      (.inl ⟨hle, Nat.cast_le.2 (Nat.div_mul_le_self ..)⟩)
  · rw [hgrid] at hge
    refine .inr ⟨hge, readsBack_iff_roundUnits.2 ?_⟩
    exact roundUnits_eq_of_between d.inUnits_nonneg hround
      (.inr ⟨Nat.cast_le.2 (Nat.lt_div_mul_add hpos).le, hge⟩)

/-! ### The search -/

/-- The search for the shortest decimal of a magnitude with `width` digits ends with `digits` of them: no
grid of fewer has a neighbour of the magnitude that reads back. -/
structure Found (tie : Tie) (x : Finite) (width digits : Nat) : Prop where
  pos : 0 < digits
  few : digits ≤ 17
  le_width : digits ≤ width
  lower : 10 ^ (width - 1) ≤ x.units
  upper : x.units < 10 ^ width
  found : x.onGrid? tie (10 ^ (width - digits)) = some (x.shortestUnits tie)
  fewer : ∀ fewer, 0 < fewer → fewer < digits → x.onGrid? tie (10 ^ (width - fewer)) = none

theorem exists_found (tie : Tie) (h : x.steps ≠ 0) : ∃ width digits, Found tie x width digits := by
  have hunits : 0 < x.units := Nat.mul_pos (Nat.pos_of_ne_zero h) unitsPerStep_pos
  obtain ⟨hwidth, hle, hlt⟩ := Numeral.toDigits_length_bounds hunits
  have hshortest : x.shortestUnits tie = ((List.range' 1 17).findSome? fun digits =>
      x.onGrid? tie (10 ^ ((Nat.toDigits 10 x.units).length - digits))).getD x.units := rfl
  generalize (Nat.toDigits 10 x.units).length = width at *
  -- at the latest the search ends with all digits or the seventeenth
  have hlast : (x.onGrid? tie (10 ^ (width - min width 17))).isSome = true := by
    rcases Nat.le_total width 17 with hw | hw
    · rw [Nat.min_eq_left hw, Nat.sub_self, isSome_onGrid?_iff]
      left
      rw [Nat.pow_zero, Nat.div_one, Nat.mul_one]
      exact readsBack_units
    · rw [Nat.min_eq_right hw]
      refine isSome_onGrid?_of_fine (Nat.pow_pos (by decide)) (le_trans ?_ hle)
      rw [← Nat.pow_add]
      exact Nat.pow_le_pow_right (by decide) (by omega)
  cases hsearch : (List.range' 1 17).findSome? fun digits => x.onGrid? tie (10 ^ (width - digits)) with
  | none =>
    have hnone := List.findSome?_eq_none_iff.1 hsearch (min width 17)
      (List.mem_range'_1.2 (by omega))
    rw [hnone] at hlast
    cases hlast
  | some units =>
    rw [hsearch, Option.getD_some] at hshortest
    obtain ⟨before, digits, after, hrange, hfound, hbefore⟩ := List.findSome?_eq_some_iff.1 hsearch
    obtain ⟨count, -, rfl, hrest⟩ := List.range'_eq_append_iff.1 hrange
    have hdigits : digits = 1 + count ∧ count < 17 := by
      rw [eq_comm, List.range'_eq_cons_iff] at hrest
      omega
    have hfewer : ∀ fewer, 0 < fewer → fewer < digits →
        x.onGrid? tie (10 ^ (width - fewer)) = none := by
      intro fewer hpos hlt
      exact hbefore fewer (List.mem_range'_1.2 (by omega))
    have hle_width : digits ≤ width := Nat.le_of_not_lt fun hlt => by
      rw [hfewer (min width 17) (by omega) (by omega)] at hlast
      cases hlast
    exact ⟨width, digits, by omega, by omega, hle_width, hle, hlt, hshortest ▸ hfound, hfewer⟩

namespace Found

variable {width digits : Nat}

theorem power_eq (f : Found tie x width digits) :
    10 ^ digits * 10 ^ (width - digits) = 10 ^ width := by
  rw [← Nat.pow_add, Nat.add_sub_cancel' f.le_width]

theorem grid_pos (_ : Found tie x width digits) : 0 < 10 ^ (width - digits) :=
  Nat.pow_pos (by decide)

/-- What is found stands on the grid, and within the width of the magnitude. -/
theorem dvd_and_le (f : Found tie x width digits) :
    10 ^ (width - digits) ∣ x.shortestUnits tie ∧ x.shortestUnits tie ≤ 10 ^ width := by
  have hdiv : x.units / 10 ^ (width - digits) < 10 ^ digits := by
    rw [Nat.div_lt_iff_lt_mul f.grid_pos, f.power_eq]
    exact f.upper
  rw [← f.power_eq]
  rcases fits_of_pickNeighbour? f.found with ⟨-, hpicked, -⟩ | ⟨-, hpicked, -⟩
  · rw [hpicked]
    exact ⟨Nat.dvd_mul_left _ _, Nat.mul_le_mul_right _ hdiv.le⟩
  · rw [hpicked, ← Nat.succ_mul]
    exact ⟨Nat.dvd_mul_left _ _, Nat.mul_le_mul_right _ hdiv⟩

/-- What is found has no more digits than the grid. -/
theorem length_le (f : Found tie x width digits) (h : x.steps ≠ 0) :
    (x.shortest tie).digits.length ≤ digits :=
  Decimal.length_digits_ofUnits_le (shortestUnits_pos tie h) f.dvd_and_le.2 f.dvd_and_le.1 f.pos
    f.le_width

variable {other : Decimal}

/-- No decimal of fewer digits reads back. -/
theorem le_length (f : Found tie x width digits) (hproper : other.Proper) (hreads : other.Reads x) :
    digits ≤ other.digits.length := by
  refine Nat.le_of_not_lt fun hlt => ?_
  have hsome : (x.onGrid? tie (10 ^ (width - other.digits.length))).isSome = true :=
    isSome_onGrid?_iff.2 ((readsBack_neighbour hproper hreads f.lower
      (hlt.le.trans f.le_width) rfl).imp (·.2) (·.2))
  rw [f.fewer _ hproper.length_pos hlt] at hsome
  cases hsome

/-- No decimal of as many digits that reads back is nearer. -/
theorem abs_sub_le (f : Found tie x width digits) (hproper : other.Proper) (hreads : other.Reads x)
    (hlength : other.digits.length = digits) :
    |(x.shortestUnits tie : ℚ) - x.units| ≤ |other.inUnits - x.units| := by
  obtain ⟨hbelow, habove⟩ := abs_sub_le_of_pickNeighbour? f.grid_pos f.found
  rcases readsBack_neighbour hproper hreads f.lower (hlength.trans_le f.le_width)
    (by rw [hlength]) with ⟨hside, hfits⟩ | ⟨hside, hfits⟩
  · calc |(x.shortestUnits tie : ℚ) - x.units|
        ≤ x.units - (x.units / 10 ^ (width - digits) * 10 ^ (width - digits) : Nat) := hbelow hfits
      _ ≤ x.units - other.inUnits := sub_le_sub_left hside _
      _ ≤ |other.inUnits - x.units| := by
        rw [← neg_sub]
        exact neg_le_abs _
  · calc |(x.shortestUnits tie : ℚ) - x.units|
        ≤ (x.units / 10 ^ (width - digits) * 10 ^ (width - digits) + 10 ^ (width - digits) : Nat) -
          x.units := habove hfits
      _ ≤ other.inUnits - x.units := sub_le_sub_right hside _
      _ ≤ |other.inUnits - x.units| := le_abs_self _

end Found

/-- Seventeen digits are enough for every double. -/
theorem length_shortest_le (tie : Tie) (h : x.steps ≠ 0) : (x.shortest tie).digits.length ≤ 17 := by
  obtain ⟨width, digits, hfound⟩ := exists_found tie h
  exact (hfound.length_le h).trans hfound.few

/-- **The decimal that is written for a double is one of the shortest that read back as it**, and of these
one of the nearest. -/
theorem shortest_isShortest (tie : Tie) (h : x.steps ≠ 0) : (x.shortest tie).Shortest x := by
  have hcounts := counts_shortest tie h
  obtain ⟨width, digits, hfound⟩ := exists_found tie h
  have hlength := hfound.length_le h
  refine ⟨hcounts.proper, ?_, fun other hproper hreads => ?_, fun other hproper hreads hsame => ?_⟩
  · rw [Decimal.reads_iff, hcounts.inUnits_eq]
    exact readsBack_iff_roundUnits.1 (readsBack_shortestUnits tie x)
  · exact hlength.trans (hfound.le_length hproper hreads)
  · rw [hcounts.inUnits_eq]
    exact hfound.abs_sub_le hproper hreads
      (le_antisymm (hsame.trans_le hlength) (hfound.le_length hproper hreads))

end Binary64.Finite

end DocTree
