import DocTree.Proofs.Json.Extended
import DocTree.Proofs.Json.Relaxed.Gap

/-!
# Tokens of relaxed JSON

How numbers, strings, keys and word values may be written, and that whatever is read as one of them is
written that way in front of the text (`number_eq_ok`, `stringRest_eq_ok`, `key_eq_ok`,
`wordValue_eq_ok`).
-/

namespace DocTree.Json

/-- The value is a number. -/
def IsNumber : Json → Prop
  | integer _ | float _ => True
  | _ => False

theorem IsNumber.isScalar {j : Json} (h : j.IsNumber) : j.isScalar = true := by
  cases j with
  | array | object => cases h
  | _ => rfl

theorem isNumber_of_numeral {n : Numeral} {j : Json} (h : n.toJson? = some j) : j.IsNumber := by
  have hfloat : ∀ {j : Json}, n.toFinite?.map Json.float = some j → j.IsNumber := by
    intro j h
    obtain ⟨x, -, rfl⟩ := Option.map_eq_some_iff.1 h
    trivial
  rw [Numeral.toJson?, Numeral.toJsonBy?] at h
  split at h
  · split at h
    · cases h
      trivial
    · exact hfloat h
  · exact hfloat h

namespace Relaxed

open Reading

variable {Reason : Type}

/-! ### Numbers -/

/-- A power of ten as it is written. -/
structure Power where
  /-- The letter before it. -/
  mark : Char
  sign : Option Char
  digits : List Char

/-- A number as it is written. -/
inductive Number where
  | decimal (sign : Option Char) (whole : List Char) (fraction : Option (List Char))
    (power : Option Power)
  /-- Hexadecimal digits behind a zero and a letter. -/
  | hex (sign : Option Char) (mark : Char) (digits : List Char)

namespace Power

/-- The text of the power. -/
def write (p : Power) : List Char := p.mark :: (p.sign.toList ++ p.digits)

/-- The power as a number. -/
def value (p : Power) : Int :=
  if p.sign = some '-' then -(Numeral.ofDigits p.digits : Int) else Numeral.ofDigits p.digits

/-- The parts are what may stand in their places. -/
structure Valid (p : Power) : Prop where
  mark : p.mark ∈ ['e', 'E']
  sign : ∀ c ∈ p.sign, c ∈ ['-', '+']
  digits : Numeral.Digits p.digits

end Power

namespace Number

/-- The text of the number. -/
def write : Number → List Char
  | decimal sign whole fraction power =>
    sign.toList ++ (whole ++ (Numeral.Written.fractionText fraction ++
      power.elim [] Power.write))
  | hex sign mark digits => sign.toList ++ '0' :: mark :: digits

/-- The value of the number; none if it is too large for the numbers of JSON. -/
def toJson? : Number → Option Json
  | decimal sign whole fraction power =>
    Numeral.toJson? {
      negative := sign = some '-'
      whole := whole
      fraction := fraction.getD []
      exponent := (power.map Power.value).getD 0
      plain := fraction.isNone && power.isNone }
  | hex sign _ digits => hexToJson? (sign = some '-') digits

/-- The parts are what may stand in their places. -/
def Valid : Number → Prop
  | decimal sign whole fraction power =>
    (∀ c ∈ sign, c ∈ ['-', '+']) ∧ Numeral.WholeDigits whole ∧
      (∀ digits ∈ fraction, Numeral.Digits digits) ∧ ∀ p ∈ power, p.Valid
  | hex sign mark digits =>
    (∀ c ∈ sign, c ∈ ['-', '+']) ∧ mark ∈ ['x', 'X'] ∧ digits ≠ [] ∧
      ∀ c ∈ digits, (hexDigit? c).isSome = true

end Number

theorem isNumber_of_hexToJson? {negative : Bool} {digits : List Char} {j : Json}
    (h : hexToJson? negative digits = some j) : j.IsNumber := by
  rw [hexToJson?] at h
  obtain ⟨magnitude, -, h⟩ := Option.bind_eq_some_iff.1 h
  obtain ⟨_, -, h⟩ := Option.bind_eq_some_iff.1 h
  obtain ⟨i, -, h⟩ := Option.bind_eq_some_iff.1 h
  cases h
  trivial

theorem Number.isNumber_of_toJson? {n : Number} {j : Json} (h : n.toJson? = some j) :
    j.IsNumber := by
  cases n with
  | decimal => exact isNumber_of_numeral h
  | hex => exact isNumber_of_hexToJson? h

theorem someDigits_eq_ok {text digits rest : List Char}
    (h : (Numeral.someDigits : Reading Reason (List Char)) text = .ok (digits, rest)) :
    Numeral.Digits digits ∧ text = digits ++ rest := by
  rw [Numeral.someDigits, bind_eq_ok_iff] at h
  obtain ⟨first, mid, hfirst, h⟩ := h
  split at h
  next hdigit =>
    obtain ⟨more, last, hmore, h⟩ := bind_eq_ok_iff.1 h
    obtain ⟨rfl, rfl⟩ := pure_eq_ok_iff.1 h
    obtain ⟨hmid, hall⟩ := takeWhile_eq_ok hmore
    refine ⟨⟨List.cons_ne_nil _ _, List.forall_mem_cons.2 ⟨hdigit, hall⟩⟩, ?_⟩
    rw [next_eq_ok_iff.1 hfirst, hmid]
    rfl
  · cases h

theorem wholeDigits_eq_ok {text digits rest : List Char}
    (h : (Numeral.wholeDigits : Reading Reason (List Char)) text = .ok (digits, rest)) :
    Numeral.WholeDigits digits ∧ text = digits ++ rest := by
  rw [Numeral.wholeDigits, bind_eq_ok_iff] at h
  obtain ⟨first, mid, hfirst, h⟩ := h
  split at h
  next hzero =>
    obtain ⟨rfl, rfl⟩ := pure_eq_ok_iff.1 h
    rw [hzero] at hfirst ⊢
    exact ⟨⟨Numeral.digits_zero, .inl rfl⟩, next_eq_ok_iff.1 hfirst⟩
  next hzero =>
    split at h
    next hdigit =>
      obtain ⟨more, last, hmore, h⟩ := bind_eq_ok_iff.1 h
      obtain ⟨rfl, rfl⟩ := pure_eq_ok_iff.1 h
      obtain ⟨hmid, hall⟩ := takeWhile_eq_ok hmore
      refine ⟨⟨⟨List.cons_ne_nil _ _, List.forall_mem_cons.2 ⟨hdigit, hall⟩⟩, .inr ?_⟩, ?_⟩
      · rw [List.head?_cons, Ne, Option.some.injEq]
        exact hzero
      · rw [next_eq_ok_iff.1 hfirst, hmid]
        rfl
    · cases h

theorem optionalFraction_eq_ok {text rest : List Char} {fraction : Option (List Char)}
    (h : (Numeral.optionalFraction : Reading Reason _) text = .ok (fraction, rest)) :
    (∀ digits ∈ fraction, Numeral.Digits digits) ∧
      text = Numeral.Written.fractionText fraction ++ rest := by
  rw [Numeral.optionalFraction, bind_eq_ok_iff] at h
  obtain ⟨point, mid, hpoint, h⟩ := h
  obtain ⟨htext, hallowed⟩ := takeIf_eq_ok hpoint
  cases point with
  | none =>
    obtain ⟨rfl, rfl⟩ := pure_eq_ok_iff.1 h
    exact ⟨fun _ h => absurd h (Option.not_mem_none _), htext⟩
  | some c =>
    obtain ⟨digits, last, hdigits, h⟩ := bind_eq_ok_iff.1 h
    obtain ⟨rfl, rfl⟩ := pure_eq_ok_iff.1 h
    obtain ⟨hvalid, hmid⟩ := someDigits_eq_ok hdigits
    refine ⟨?_, ?_⟩
    · rintro _ ⟨⟩
      exact hvalid
    · rw [htext, hmid, List.mem_singleton.1 (hallowed c rfl)]
      rfl

theorem optionalExponent_eq_ok {text rest : List Char} {exponent : Option Int}
    (h : (Numeral.optionalExponent : Reading Reason _) text = .ok (exponent, rest)) :
    ∃ power : Option Power, (∀ p ∈ power, p.Valid) ∧ exponent = power.map Power.value ∧
      text = power.elim [] Power.write ++ rest := by
  rw [Numeral.optionalExponent, bind_eq_ok_iff] at h
  obtain ⟨mark, mid, hmark, h⟩ := h
  obtain ⟨htext, hmarks⟩ := takeIf_eq_ok hmark
  cases mark with
  | none =>
    obtain ⟨rfl, rfl⟩ := pure_eq_ok_iff.1 h
    exact ⟨none, fun _ h => absurd h (Option.not_mem_none _), rfl, htext⟩
  | some c =>
    obtain ⟨sign, behind, hsign, h⟩ := bind_eq_ok_iff.1 h
    obtain ⟨digits, last, hdigits, h⟩ := bind_eq_ok_iff.1 h
    obtain ⟨rfl, rfl⟩ := pure_eq_ok_iff.1 h
    obtain ⟨hmid, hsigns⟩ := takeIf_eq_ok hsign
    obtain ⟨hvalid, hbehind⟩ := someDigits_eq_ok hdigits
    refine ⟨some ⟨c, sign, digits⟩, ?_, rfl, ?_⟩
    · rintro _ ⟨⟩
      exact ⟨hmarks c rfl, hsigns, hvalid⟩
    · rw [htext, hmid, hbehind]
      simp [Power.write]

theorem unsigned_eq_ok {negative : Bool} {text rest : List Char} {n : Numeral}
    (h : (Numeral.unsigned negative Numeral.wholeDigits : Reading Reason Numeral) text =
      .ok (n, rest)) :
    ∃ (fraction : Option (List Char)) (power : Option Power), Numeral.WholeDigits n.whole ∧
      (∀ digits ∈ fraction, Numeral.Digits digits) ∧ (∀ p ∈ power, p.Valid) ∧
        n = { negative := negative, whole := n.whole, fraction := fraction.getD [],
              exponent := (power.map Power.value).getD 0
              plain := fraction.isNone && power.isNone } ∧
          text = n.whole ++ (Numeral.Written.fractionText fraction ++
            (power.elim [] Power.write ++ rest)) := by
  rw [Numeral.unsigned, bind_eq_ok_iff] at h
  obtain ⟨whole, behindWhole, hwhole, h⟩ := h
  obtain ⟨fraction, behindFraction, hfraction, h⟩ := bind_eq_ok_iff.1 h
  obtain ⟨exponent, last, hexponent, h⟩ := bind_eq_ok_iff.1 h
  obtain ⟨rfl, rfl⟩ := pure_eq_ok_iff.1 h
  obtain ⟨hdigits, htext⟩ := wholeDigits_eq_ok hwhole
  obtain ⟨hfractions, hbehindWhole⟩ := optionalFraction_eq_ok hfraction
  obtain ⟨power, hpower, rfl, hbehindFraction⟩ := optionalExponent_eq_ok hexponent
  refine ⟨fraction, power, hdigits, hfractions, hpower, ?_, ?_⟩
  · simp
  · rw [htext, hbehindWhole, hbehindFraction]

theorem hexDigits_eq_ok {text digits rest : List Char}
    (h : (hexDigits : Reading Reason (List Char)) text = .ok (digits, rest)) :
    digits ≠ [] ∧ (∀ c ∈ digits, (hexDigit? c).isSome = true) ∧ text = digits ++ rest := by
  rw [hexDigits, bind_eq_ok_iff] at h
  obtain ⟨run, mid, hrun, h⟩ := h
  split at h
  · cases h
  next hne =>
    obtain ⟨rfl, rfl⟩ := pure_eq_ok_iff.1 h
    obtain ⟨htext, hall⟩ := takeWhile_eq_ok hrun
    exact ⟨hne, hall, htext⟩

theorem numeral_eq_ok {text rest : List Char} {o : Option Json}
    (h : (numeral : Reading Reason (Option Json)) text = .ok (o, rest)) :
    ∃ n : Number, n.Valid ∧ n.toJson? = o ∧ text = n.write ++ rest := by
  rw [numeral, bind_eq_ok_iff] at h
  obtain ⟨sign, behindSign, hsign, h⟩ := h
  obtain ⟨n, behindNumber, hnumber, h⟩ := bind_eq_ok_iff.1 h
  obtain ⟨htext, hsigns⟩ := takeIf_eq_ok hsign
  obtain ⟨fraction, power, hwhole, hfraction, hpower, hn, hbehindSign⟩ := unsigned_eq_ok hnumber
  have hdecimal : n.toJson? = o → behindNumber = rest →
      ∃ n : Number, n.Valid ∧ n.toJson? = o ∧ text = n.write ++ rest := by
    rintro rfl rfl
    refine ⟨.decimal sign n.whole fraction power, ⟨hsigns, hwhole, hfraction, hpower⟩, ?_, ?_⟩
    · rw [Number.toJson?, ← hn]
    · rw [htext, hbehindSign]
      simp [Number.write]
  split at h
  next hzero =>
    obtain ⟨mark, behindMark, hmark, h⟩ := bind_eq_ok_iff.1 h
    obtain ⟨hbehindNumber, hmarks⟩ := takeIf_eq_ok hmark
    cases mark with
    | none =>
      obtain ⟨hvalue, rfl⟩ := pure_eq_ok_iff.1 h
      exact hdecimal hvalue hbehindNumber
    | some c =>
      obtain ⟨digits, last, hdigits, h⟩ := bind_eq_ok_iff.1 h
      obtain ⟨rfl, rfl⟩ := pure_eq_ok_iff.1 h
      obtain ⟨hne, hall, hbehindMark⟩ := hexDigits_eq_ok hdigits
      -- a plain zero has neither a fraction nor a power
      have hplain := hzero.1
      rw [hn, Bool.and_eq_true, Option.isNone_iff_eq_none, Option.isNone_iff_eq_none] at hplain
      obtain ⟨rfl, rfl⟩ := hplain
      refine ⟨.hex sign c digits, ⟨hsigns, hmarks c rfl, hne, hall⟩, rfl, ?_⟩
      rw [htext, hbehindSign, hzero.2, hbehindNumber, hbehindMark]
      simp [Number.write, Numeral.Written.fractionText]
  · obtain ⟨mark, behindMark, hmark, h⟩ := bind_eq_ok_iff.1 h
    obtain ⟨rfl, rfl⟩ := pure_eq_ok_iff.1 hmark
    obtain ⟨hvalue, rfl⟩ := pure_eq_ok_iff.1 h
    exact hdecimal hvalue rfl

theorem number_eq_ok {text rest : List Char} {o : Option Json} {s : String}
    (h : (number : Reading Reason (Option Json × String)) text = .ok ((o, s), rest)) :
    ∃ n : Number, n.Valid ∧ n.toJson? = o ∧ s = String.ofList n.write ∧
      text = n.write ++ rest := by
  obtain ⟨⟨value, last⟩, hnumeral, heq⟩ := exists_of_bind_eq_ok h
  cases heq
  obtain ⟨n, hvalid, hvalue, rfl⟩ := numeral_eq_ok hnumeral
  refine ⟨n, hvalid, hvalue, ?_, rfl⟩
  rw [List.length_append, Nat.add_sub_cancel, List.take_left]

/-! ### Strings -/

/-- The letters of escapes and what they stand for. -/
def shortEscapes : List (Char × Char) :=
  [('\\', '\\'), ('/', '/'), ('b', '\x08'), ('f', '\x0c'), ('n', '\n'), ('r', '\r'), ('t', '\t')]

/-- Four hexadecimal digits of a code. -/
def IsQuad (digits : List Char) (code : Nat) : Prop :=
  digits.length = 4 ∧ ofHex? digits = some code

/-- A character and its escape behind the backslash, in a string between the given quotes. -/
inductive Escape (quote : Char) : Char → List Char → Prop
  | short {mark c : Char} (h : (mark, c) ∈ shortEscapes) : Escape quote c [mark]
  | quote : Escape quote quote [quote]
  | code {digits : List Char} {code : Nat} (hdigits : IsQuad digits code)
    (hcode : code < 0xD800 ∨ 0xDFFF < code) : Escape quote (Char.ofNat code) ('u' :: digits)
  | pair {digits lowDigits : List Char} {high low : Nat} (hdigits : IsQuad digits high)
    (hhigh : 0xD800 ≤ high ∧ high < 0xDC00) (hlowDigits : IsQuad lowDigits low)
    (hlow : 0xDC00 ≤ low ∧ low ≤ 0xDFFF) :
    Escape quote (ofSurrogates high low) ('u' :: (digits ++ '\\' :: 'u' :: lowDigits))

/-- The characters of a string and how they are written between the given quotes. -/
inductive Body (quote : Char) : List Char → List Char → Prop
  | nil : Body quote [] []
  | plain {c : Char} {chars text : List Char} (hc : c ≠ quote ∧ c ≠ '\\')
    (h : Body quote chars text) : Body quote (c :: chars) (c :: text)
  | escape {c : Char} {chars escaped text : List Char} (hc : Escape quote c escaped)
    (h : Body quote chars text) : Body quote (c :: chars) ('\\' :: (escaped ++ text))

/-- The string is written as the token: between quotes of one kind or the other. -/
def IsStringToken (s : String) (token : List Char) : Prop :=
  ∃ quote ∈ ['"', '\''], ∃ body, Body quote s.toList body ∧ token = quote :: (body ++ [quote])

theorem hexQuad_eq_ok {text rest : List Char} {code : Nat}
    (h : (hexQuad : Reading Reason Nat) text = .ok (code, rest)) :
    ∃ digits, IsQuad digits code ∧ text = digits ++ rest := by
  rw [hexQuad] at h
  split at h
  · cases h
  next hsize =>
    split at h
    next hcode =>
      cases h
      have hbytes := utf8ByteSize_of_isSome_ofHex? (Option.isSome_of_eq_some hcode)
      have hlength := List.length_take_le 4 text
      exact ⟨text.take 4, ⟨by omega, hcode⟩, (List.take_append_drop 4 text).symm⟩
    · cases h

theorem unicodeEscape_eq_ok {quote c : Char} {text rest : List Char}
    (h : (unicodeEscape : Reading Reason Char) text = .ok (c, rest)) :
    ∃ escaped, Escape quote c ('u' :: escaped) ∧ text = escaped ++ rest := by
  rw [unicodeEscape, bind_eq_ok_iff] at h
  obtain ⟨code, mid, hcode, h⟩ := h
  obtain ⟨digits, hdigits, rfl⟩ := hexQuad_eq_ok hcode
  split at h
  next hrange =>
    obtain ⟨rfl, rfl⟩ := pure_eq_ok_iff.1 h
    exact ⟨digits, .code hdigits hrange, rfl⟩
  next hrange =>
    -- a first surrogate, which needs the escape of a second one
    split at h
    · cases h
    next hhigh =>
      obtain ⟨_, behind, hmark, hbehind⟩ := bind_eq_ok_iff.1 h
      obtain ⟨low, last, hlow, hpair⟩ := bind_eq_ok_iff.1 hbehind
      obtain rfl := expect_eq_ok hmark
      obtain ⟨lowDigits, hlowDigits, rfl⟩ := hexQuad_eq_ok hlow
      split at hpair
      next hlowRange =>
        obtain ⟨rfl, rfl⟩ := pure_eq_ok_iff.1 hpair
        exact ⟨digits ++ '\\' :: 'u' :: lowDigits,
          .pair hdigits (by omega) hlowDigits hlowRange, by simp⟩
      · cases hpair

theorem escape_eq_ok {quote c : Char} {text rest : List Char}
    (h : (escape quote : Reading Reason Char) text = .ok (c, rest)) :
    ∃ escaped, Escape quote c escaped ∧ text = escaped ++ rest := by
  rw [escape, bind_eq_ok_iff] at h
  obtain ⟨mark, mid, hmark, h⟩ := h
  obtain rfl := next_eq_ok_iff.1 hmark
  split at h
  case h_8 =>
    obtain ⟨escaped, hescaped, rfl⟩ := @unicodeEscape_eq_ok Reason quote _ _ _ h
    exact ⟨_, hescaped, rfl⟩
  case h_9 =>
    split at h
    next hquote =>
      obtain ⟨rfl, rfl⟩ := pure_eq_ok_iff.1 h
      exact ⟨[mark], hquote ▸ .quote, rfl⟩
    · cases h
  all_goals
    obtain ⟨rfl, rfl⟩ := pure_eq_ok_iff.1 h
    exact ⟨_, .short (by decide), rfl⟩

theorem stringChar?_eq_ok_none {quote : Char} {text rest : List Char}
    (h : (stringChar? quote : Reading Reason (Option Char)) text = .ok (none, rest)) :
    text = quote :: rest := by
  rw [stringChar?, bind_eq_ok_iff] at h
  obtain ⟨c, mid, hc, h⟩ := h
  obtain rfl := next_eq_ok_iff.1 hc
  split at h
  next hquote =>
    obtain ⟨-, rfl⟩ := pure_eq_ok_iff.1 h
    rw [hquote]
  · split at h
    · exact absurd h (map_ne_ok nofun)
    · cases h

theorem stringChar?_eq_ok_some {quote c : Char} {text rest : List Char}
    (h : (stringChar? quote : Reading Reason (Option Char)) text = .ok (some c, rest)) :
    (c ≠ quote ∧ c ≠ '\\') ∧ text = c :: rest ∨
      ∃ escaped, Escape quote c escaped ∧ text = '\\' :: (escaped ++ rest) := by
  rw [stringChar?, bind_eq_ok_iff] at h
  obtain ⟨d, mid, hd, h⟩ := h
  obtain rfl := next_eq_ok_iff.1 hd
  split at h
  · cases h
  next hquote =>
    split at h
    next hslash =>
      obtain ⟨escaped, hescaped, rfl⟩ := escape_eq_ok ((map_eq_ok_iff fun _ _ => Option.some.inj).1 h)
      exact .inr ⟨escaped, hescaped, by rw [hslash]⟩
    next hslash =>
      obtain ⟨heq, rfl⟩ := pure_eq_ok_iff.1 h
      obtain rfl := Option.some.inj heq
      exact .inl ⟨⟨hquote, hslash⟩, rfl⟩

theorem manyWithin_stringChar?_eq_ok {quote : Char} {fuel text rest chars : List Char}
    (h : manyWithin .string (stringChar? quote : Reading Reason (Option Char)) fuel text =
      .ok (chars, rest)) :
    ∃ body, Body quote chars body ∧ text = body ++ quote :: rest := by
  induction fuel generalizing text chars with
  | nil => cases h
  | cons _ fuel ih =>
    obtain ⟨hquote, rfl⟩ | ⟨c, mid, later, hchar, hlater, rfl⟩ := manyWithin_cons_eq_ok_iff.1 h
    · exact ⟨[], .nil, stringChar?_eq_ok_none hquote⟩
    · obtain ⟨body, hbody, rfl⟩ := ih hlater
      obtain ⟨hc, rfl⟩ | ⟨escaped, hescaped, rfl⟩ := stringChar?_eq_ok_some hchar
      · exact ⟨c :: body, .plain hc hbody, rfl⟩
      · exact ⟨'\\' :: (escaped ++ body), .escape hescaped hbody, by simp⟩

theorem stringRest_eq_ok {quote : Char} {text rest : List Char} {s : String}
    (h : (stringRest quote : Reading Reason String) text = .ok (s, rest)) :
    ∃ body, Body quote s.toList body ∧ text = body ++ quote :: rest := by
  rw [stringRest, bind_eq_ok_iff] at h
  obtain ⟨chars, mid, hchars, h⟩ := h
  obtain ⟨rfl, rfl⟩ := pure_eq_ok_iff.1 h
  rw [many_apply] at hchars
  rw [String.toList_ofList]
  exact manyWithin_stringChar?_eq_ok hchars

/-! ### Keys -/

/-- The key is written as the token: as a string, as a number that stands for its text, or as a word
that is no value. -/
inductive IsKeyToken : String → List Char → Prop
  | string {key : String} {token : List Char} (h : IsStringToken key token) : IsKeyToken key token
  | number {n : Number} (h : n.Valid) : IsKeyToken (String.ofList n.write) n.write
  | word {token : List Char} (hne : token ≠ []) (hall : ∀ c ∈ token, isWordChar c = true)
    (hnumber : ∀ c ∈ token.head?, beginsNumber c = false)
    (hvalue : ∀ value ∈ wordValues, startsWithValue token value.1 = false) :
    IsKeyToken (String.ofList token) token

theorem wordKey_eq_ok {text rest : List Char} {key : String}
    (h : (wordKey : Reading Reason String) text = .ok (key, rest))
    (hnumber : ∀ c ∈ text.head?, beginsNumber c = false) :
    ∃ token, IsKeyToken key token ∧ text = token ++ rest := by
  rw [wordKey] at h
  split at h
  · cases h
  next hword =>
    cases h
    rw [not_or, not_or] at hword
    obtain ⟨hne, hvalue, hrest⟩ := hword
    have htext : text.takeWhile isWordChar ++ text.dropWhile isWordChar = text :=
      List.takeWhile_append_dropWhile
    refine ⟨text.takeWhile isWordChar, .word hne (List.all_eq_true.1 List.all_takeWhile) ?_ ?_,
      htext.symm⟩
    · obtain ⟨c, word, hc⟩ := List.exists_cons_of_ne_nil hne
      rw [hc] at htext ⊢
      rw [← htext] at hnumber
      exact hnumber
    · -- behind the word there is white space or a colon
      have hends : ∀ c ∈ (text.dropWhile isWordChar).head?, Text.isAlphanumeric c = false := by
        intro c hc
        rw [hc, Option.any_some, Bool.not_eq_true, Bool.not_eq_false', Bool.or_eq_true] at hrest
        rcases hrest with hblank | hcolon
        · exact Text.isAlphanumeric_of_isBlank hblank
        · rw [eq_of_beq hcolon]
          decide +kernel
      intro value hmem
      rw [Bool.eq_false_iff]
      intro hstarts
      have hall := startsWithValue_append_right hstarts hends
      rw [htext] at hall
      exact hvalue (List.any_eq_true.2 ⟨value, hmem, hall⟩)

/-- The character that is next is the one seen in front. -/
theorem eq_cons_of_next {inside : Unfinished} {text mid : List Char} {c d : Char}
    (hd : (next inside : Reading Reason Char) text = .ok (d, mid)) (hc : text.head? = some c) :
    text = c :: mid := by
  obtain rfl := next_eq_ok_iff.1 hd
  cases hc
  rfl

theorem isStringToken_of_stringRest {quote : Char} (hquote : quote ∈ ['"', '\'']) {mid rest : List Char}
    {s : String} (h : (stringRest quote : Reading Reason String) mid = .ok (s, rest)) :
    ∃ token, IsStringToken s token ∧ quote :: mid = token ++ rest := by
  obtain ⟨body, hbody, rfl⟩ := stringRest_eq_ok h
  exact ⟨quote :: (body ++ [quote]), ⟨quote, hquote, body, hbody, rfl⟩, by simp⟩

theorem key_eq_ok {text rest : List Char} {key : String}
    (h : (Relaxed.key : Reading Reason String) text = .ok (key, rest)) :
    ∃ token, IsKeyToken key token ∧ text = token ++ rest := by
  rw [Relaxed.key, bind_eq_ok_iff] at h
  obtain ⟨o, mid, hpeek, h⟩ := h
  obtain ⟨ho, rfl⟩ := peek_eq_ok_iff.1 hpeek
  -- the first character tells a string, between quotes of either kind, a number and a word
  split at h
  case h_1 | h_2 =>
    obtain ⟨c, mid, hnext, hrest⟩ := bind_eq_ok_iff.1 h
    obtain ⟨token, htoken, heq⟩ := isStringToken_of_stringRest (by decide) hrest
    exact ⟨token, .string htoken, (eq_cons_of_next hnext ho).trans heq⟩
  case h_3 =>
    split at h
    · obtain ⟨⟨value, s⟩, mid, hread, hkey⟩ := bind_eq_ok_iff.1 h
      obtain ⟨rfl, rfl⟩ := pure_eq_ok_iff.1 hkey
      obtain ⟨n, hvalid, -, rfl, rfl⟩ := number_eq_ok hread
      exact ⟨n.write, .number hvalid, rfl⟩
    next hbegins =>
      refine wordKey_eq_ok h ?_
      rw [ho]
      rintro d ⟨⟩
      exact Bool.eq_false_iff.2 hbegins
  · cases h

/-! ### Words -/

theorem wordValue_eq_ok {text rest : List Char} {j : Json}
    (h : (wordValue : Reading Reason Json) text = .ok (j, rest)) :
    ∃ word, (word, j) ∈ wordValues ∧ text = word.toList ++ rest := by
  rw [wordValue] at h
  split at h
  next word value hfind =>
    cases h
    refine ⟨word, List.mem_of_find?_eq_some hfind, ?_⟩
    have hstarts := List.find?_some hfind
    simp only [startsWithValue, Bool.and_eq_true, List.isPrefixOf_iff_prefix] at hstarts
    obtain ⟨⟨more, rfl⟩, -⟩ := hstarts
    rw [← String.length_toList, List.drop_left]
  · cases h

end Relaxed

end DocTree.Json
