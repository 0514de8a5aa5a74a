import DocTree.Proofs.Json.RoundTrip
import DocTree.Proofs.Reading.Extended
import Mathlib.Data.List.TakeWhile

/-!
# JSON in longer texts

What is read of the tokens, arrays and objects of a text lasts when there is more behind it, as long as
that does not go on with a numeral at the end (`Numeral.Ends`).  Every mark is looked for where one is
needed, so only the digits of numbers can use up the text.  An object is read up to its closing bracket,
whatever is behind that (`closes_members`).
-/

namespace DocTree

open Reading

variable {Reason α β σ : Type}

/-! ### Numerals -/

namespace Numeral

theorem lasting_digits : Lasting Ends (takeWhile Char.isDigit : Reading Reason (List Char)) :=
  lasting_takeWhile fun _ hmore c hc => (hmore c hc).1

theorem lasting_someDigits : Lasting Ends (someDigits : Reading Reason (List Char)) := by
  refine (lasting_next .value).bind fun first => ?_
  split
  · exact lasting_digits.bind fun digits => lasting_pure _
  · exact lasting_reject _

theorem lasting_wholeDigits : Lasting Ends (wholeDigits : Reading Reason (List Char)) := by
  refine (lasting_next .value).bind fun first => ?_
  split
  · exact lasting_pure _
  · split
    · exact lasting_digits.bind fun digits => lasting_pure _
    · exact lasting_reject _

theorem lasting_optionalFraction :
    Lasting Ends (optionalFraction : Reading Reason (Option (List Char))) := by
  refine (lasting_takeIf fun _ hmore c hc => (hmore c hc).2.1).bind fun point => ?_
  cases point with
  | none => exact lasting_pure _
  | some c => exact lasting_someDigits.bind fun digits => lasting_pure _

theorem lasting_optionalExponent :
    Lasting Ends (optionalExponent : Reading Reason (Option Int)) := by
  refine (lasting_takeIf fun _ hmore c hc => (hmore c hc).2.2).bind fun mark => ?_
  cases mark with
  | none => exact lasting_pure _
  | some c =>
    -- a sign may stand where the text ends, but digits are needed behind it
    refine lasting_takeIf_bind (fun sign => ?_) ⟨.value, rfl⟩
    exact lasting_someDigits.bind fun digits => lasting_pure _

theorem lasting_unsigned (negative : Bool) {whole : Reading Reason (List Char)}
    (h : Lasting Ends whole) : Lasting Ends (unsigned negative whole) :=
  h.bind fun _ => lasting_optionalFraction.bind fun _ =>
    lasting_optionalExponent.bind fun _ => lasting_pure _

end Numeral

namespace Json

open Numeral (Ends)

/-- No digit follows a leading zero, and none goes on with the text. -/
theorem lasting_wholeDigits : Lasting Ends (wholeDigits : Reading Reason (List Char)) := by
  refine Numeral.lasting_wholeDigits.bind fun digits => lasting_check (fun more hmore => ?_) _ _
  cases more with
  | nil => exact Iff.rfl
  | cons c more => simp [(hmore c rfl).1]

theorem lasting_number (round : Numeral → Option Binary64.Finite) :
    Lasting Ends (numberBy round : Reading Reason Head) := by
  refine lasting_takeIf_bind (fun sign => ?_) ⟨.value, rfl⟩
  refine (Numeral.lasting_unsigned _ lasting_wholeDigits).bind fun numeral => ?_
  cases numeral.toJsonBy? round with
  | none => exact lasting_reject _
  | some j => exact lasting_pure _

/-! ### Strings -/

theorem utf8Size_of_isSome_hexDigit? {c : Char} (h : (hexDigit? c).isSome) : c.utf8Size = 1 := by
  refine Char.utf8Size_eq_one_iff.2 ?_
  simp only [hexDigit?, Char.isDigit, Char.le_def, UInt32.le_iff_toNat_le, Bool.and_eq_true,
    decide_eq_true_eq, ge_iff_le] at h ⊢
  split at h
  · simp_all; omega
  · split at h
    · simp_all; omega
    · split at h
      · simp_all; omega
      · cases h

/-- A number is denoted by hexadecimal digits only. -/
theorem isSome_hexDigit?_of_foldlM {digits : List Char} {n : Nat}
    (h : (digits.foldlM (fun n c => (hexDigit? c).map (16 * n + ·)) n).isSome) :
    ∀ c ∈ digits, (hexDigit? c).isSome := by
  induction digits generalizing n with
  | nil => exact nofun
  | cons c digits ih =>
    rw [List.foldlM_cons] at h
    cases hc : hexDigit? c with
    | none => simp [hc] at h
    | some d =>
      rw [hc] at h
      exact List.forall_mem_cons.2 ⟨by rw [hc]; rfl, ih h⟩

/-- Hexadecimal digits are as many as their bytes. -/
theorem utf8ByteSize_of_isSome_ofHex? {digits : List Char} (h : (ofHex? digits).isSome) :
    (String.ofList digits).utf8ByteSize = digits.length := by
  have hall := isSome_hexDigit?_of_foldlM h
  clear h
  induction digits with
  | nil => rfl
  | cons c digits ih =>
    obtain ⟨hc, hdigits⟩ := List.forall_mem_cons.1 hall
    rw [String.ofList_cons, String.utf8ByteSize_append, String.utf8ByteSize_singleton,
      utf8Size_of_isSome_hexDigit? hc, ih hdigits, List.length_cons, Nat.add_comm]

theorem lasting_hexQuad : Lasting Ends (hexQuad : Reading Reason Nat) where
  ok {text rest more code} hrun _ := by
    simp only [hexQuad] at hrun ⊢
    split at hrun
    · cases hrun
    next hsize =>
    split at hrun
    next hcode =>
      cases hrun
      have hlength := utf8ByteSize_of_isSome_ofHex? (Option.isSome_of_eq_some hcode)
      have hfour : 4 ≤ text.length := by
        have := List.length_take_le' 4 text
        omega
      rw [List.take_append_of_le_length hfour, List.drop_append_of_le_length hfour, if_neg hsize, hcode]
    · cases hrun
  error {text more e} hrun hearly _ := by
    simp only [hexQuad] at hrun ⊢
    split at hrun
    · cases hrun
      exact absurd trivial hearly
    next hsize =>
    split at hrun
    · cases hrun
    next hcode =>
      -- what comes behind makes neither fewer bytes nor digits of other characters
      have hlonger : ofHex? ((text ++ more).take 4) = none := by
        rw [List.take_append, ofHex?, List.foldlM_append]
        rw [ofHex?] at hcode
        rw [hcode]
        rfl
      have hbytes : ¬ (String.ofList ((text ++ more).take 4)).utf8ByteSize < 4 := by
        rw [List.take_append, String.ofList_append, String.utf8ByteSize_append]
        omega
      rw [if_neg hbytes, hlonger]
      exact hrun
  nil hrun := by cases hrun
theorem lasting_unicodeEscape : Lasting Ends (unicodeEscape : Reading Reason Char) := by
  refine lasting_hexQuad.bind fun code => ?_
  split
  · exact lasting_pure _
  · split
    · exact lasting_reject _
    · refine (lasting_expect ..).bind fun _ => lasting_hexQuad.bind fun low => ?_
      split
      · exact lasting_pure _
      · exact lasting_reject _

theorem lasting_escape (quote : Char) : Lasting Ends (escape quote : Reading Reason Char) := by
  refine (lasting_next .string).bind fun c => ?_
  split
  case h_8 => exact lasting_unicodeEscape
  case h_9 =>
    split
    · exact lasting_pure _
    · exact lasting_reject _
  all_goals exact lasting_pure _

theorem lasting_stringChar? : Lasting Ends (stringChar? : Reading Reason (Option Char)) := by
  refine (lasting_next .string).bind fun c => ?_
  split
  · exact lasting_pure _
  · exact (lasting_escape _).bind fun c => lasting_pure _
  · split
    · exact lasting_reject _
    · exact lasting_pure _

theorem lasting_stringRest : Lasting Ends (stringRest : Reading Reason String) :=
  (lasting_many lasting_stringChar?).bind fun _ => lasting_pure _

/-! ### Tokens -/

/-- A token lasts: behind the blanks one has to begin, and all but numbers end with a mark. -/
theorem lasting_token : Lasting Ends (token : Reading Reason Head) := by
  refine lasting_skipWhile_peek (fun c => ?_) ⟨.value, rfl⟩
  split
  case h_1 h => cases h
  case h_8 =>
    split
    · exact lasting_number _
    · exact lasting_reject _
  case h_5 => exact (lasting_next _).bind fun _ => lasting_stringRest.bind fun s => lasting_pure _
  case h_6 | h_7 => exact (lasting_next _).bind fun _ => lasting_pure _
  all_goals exact (lasting_expect ..).bind fun _ => lasting_pure _

theorem needsText_token : NeedsText (token : Reading Reason Head) := ⟨.value, rfl⟩

/-! ### Containers -/

section Containers

variable {item : Reading Reason α}

theorem lasting_anyItem : Lasting Ends (anyItem : Reading Reason Bool) := by
  refine lasting_skipWhile_peek (fun c => ?_) ⟨.list, rfl⟩
  split
  · next h => cases h
  · exact (lasting_next _).bind fun _ => lasting_pure _
  · exact lasting_pure _

/-- What follows the character behind an item: the next item, or none if the array closes. -/
def afterItem (item : Reading Reason α) : Char → Reading Reason (Option α)
  | ']' => return none
  | ',' => do
    skipBlanks
    if (← peek) = some ']' then reject .trailingComma else return some (← item)
  | _ => reject .noListEnd

theorem laterItem?_eq (item : Reading Reason α) :
    laterItem? item = (do skipBlanks; afterItem item (← next .list)) := by
  rw [laterItem?, anotherItem, bind_assoc]
  refine bind_congr fun _ => ?_
  rw [bind_assoc]
  refine bind_congr fun c => ?_
  fun_cases afterItem item c with
  | case1 => rfl
  | case2 =>
    refine (bind_assoc skipBlanks _ _).trans (bind_congr fun _ => ?_)
    refine (bind_assoc peek _ _).trans (bind_congr fun following => ?_)
    split <;> rfl
  | case3 d hclose hcomma =>
    split
    · exact absurd rfl hclose
    · exact absurd rfl hcomma
    · rfl

/-- Behind a comma an item is needed, so that it does not matter that the closing bracket may not
follow. -/
theorem lasting_laterItem? (h : Lasting Ends item) (hneeds : NeedsText item) :
    Lasting Ends (laterItem? item) := by
  rw [laterItem?_eq]
  refine lasting_skipWhile_next fun c => ?_
  unfold afterItem
  split
  · exact lasting_pure _
  · refine lasting_skipWhile_peek (fun c => ?_) hneeds.bind
    split
    · exact lasting_reject _
    · exact h.bind fun a => lasting_pure _
  · exact lasting_reject _

theorem lasting_items (h : Lasting Ends item) (hneeds : NeedsText item) :
    Lasting Ends (items item) := by
  refine lasting_anyItem.bind fun any => ?_
  cases any with
  | false => exact lasting_pure _
  | true =>
    refine h.bind fun first => ?_
    exact (lasting_many (lasting_laterItem? h hneeds)).bind fun _ => lasting_pure _

theorem lasting_colon : Lasting Ends (colon : Reading Reason Unit) := by
  refine lasting_skipWhile_next fun c => ?_
  split
  · exact lasting_pure _
  · exact lasting_reject _

variable {value : σ → String → Except Reason (Reading Reason σ)}

theorem lasting_member (h : ∀ s key r, value s key = .ok r → Lasting Ends r) (s : σ) (key : String) :
    Lasting Ends (member value s key) := by
  unfold member
  cases hr : value s key with
  | error reason => exact lasting_refuse reason
  | ok r => exact lasting_colon.bind fun _ => h s key r hr

theorem lasting_firstKey : Lasting Ends (firstKey : Reading Reason (Option String)) := by
  refine lasting_skipWhile_next fun c => ?_
  split
  · exact lasting_pure _
  · exact lasting_stringRest.bind fun _ => lasting_pure _
  · exact lasting_reject _

theorem lasting_laterKey : Lasting Ends (laterKey : Reading Reason String) := by
  refine lasting_skipWhile_next fun c => ?_
  split
  · exact lasting_stringRest
  · exact lasting_reject _
  · exact lasting_reject _

theorem lasting_laterKey? : Lasting Ends (laterKey? : Reading Reason (Option String)) := by
  refine lasting_skipWhile_next fun c => ?_
  split
  · exact lasting_pure _
  · exact lasting_laterKey.bind fun _ => lasting_pure _
  · exact lasting_reject _

theorem lasting_laterMember? (h : ∀ s key r, value s key = .ok r → Lasting Ends r) (s : σ) :
    Lasting Ends (laterMember? value s) := by
  refine lasting_laterKey?.bind fun key => ?_
  cases key with
  | none => exact lasting_pure _
  | some key => exact (lasting_member h s key).bind fun _ => lasting_pure _

theorem lasting_members (h : ∀ s key r, value s key = .ok r → Lasting Ends r) (init : σ) :
    Lasting Ends (members value init) := by
  refine lasting_firstKey.bind fun key => ?_
  cases key with
  | none => exact lasting_pure _
  | some key =>
    exact (lasting_member h init key).bind fun s => lasting_iterate (lasting_laterMember? h) s

/-! ### Closing brackets -/

theorem closesWith_firstKey : (firstKey : Reading Reason (Option String)).ClosesWith none := by
  refine closesWith_skipWhile_next fun c => ?_
  split
  · exact closes_pure none none
  · exact closesWith_of_ne_ok fun text rest => map_ne_ok (by simp)
  · exact closesWith_of_ne_ok fun text rest h => nomatch h

theorem closesWith_laterKey? : (laterKey? : Reading Reason (Option String)).ClosesWith none := by
  refine closesWith_skipWhile_next fun c => ?_
  split
  · exact closes_pure none none
  · exact closesWith_of_ne_ok fun text rest => map_ne_ok (by simp)
  · exact closesWith_of_ne_ok fun text rest h => nomatch h

theorem closesWith_laterMember? (s : σ) : (laterMember? value s).ClosesWith none := by
  intro text rest h more
  have hkey := closesWith_laterKey? (laterMember?_eq_ok_none_iff.1 h) more
  exact laterMember?_eq_ok_none_iff.2 hkey

theorem needsText_laterMember? (s : σ) : NeedsText (laterMember? value s) := ⟨.object, rfl⟩

/-- The closing bracket of an object has come when its members are read. -/
theorem closes_members (h : ∀ s key r, value s key = .ok r → Lasting Ends r) (init : σ) :
    Closes (members value init) := by
  have hlater : ∀ s, Closes (laterMembers value s) :=
    closes_iterate (lasting_laterMember? h) closesWith_laterMember? needsText_laterMember?
  have hnil : ∀ (s s' : σ) rest, laterMembers value s [] ≠ .ok (s', rest) :=
    fun s s' rest hrun => nomatch hrun
  refine lasting_firstKey.closes_bind (fun key => ?_) fun key => ?_
  · cases key with
    | none => exact closes_pure init
    | some key => exact (lasting_member h init key).closes_bind hlater fun s => .inr (hnil s)
  · cases key with
    | none => exact .inl closesWith_firstKey
    | some key =>
      refine .inr fun s rest hrun => ?_
      obtain ⟨s', mid, hmember, hrest⟩ := bind_eq_ok_iff.1 hrun
      obtain rfl := (lasting_member h init key).nil hmember
      exact hnil s' s rest hrest

end Containers

/-! ### Values -/

theorem lasting_valueWith {array object : Reading Reason Json} (ha : Lasting Ends array)
    (ho : Lasting Ends object) : Lasting Ends (valueWith array object) := by
  refine lasting_token.bind fun head => ?_
  split
  case h_6 => exact ha
  case h_7 => exact ho
  all_goals exact lasting_pure _

theorem needsText_value (levels : Nat) : NeedsText (value levels : Reading Reason Json) := by
  cases levels <;> exact needsText_token.bind

theorem lasting_value (levels : Nat) : Lasting Ends (value levels : Reading Reason Json) := by
  induction levels with
  | zero => exact lasting_valueWith (lasting_fail _) (lasting_fail _)
  | succ levels ih =>
    refine lasting_valueWith ?_ ?_
    · exact (lasting_items ih (needsText_value levels)).bind fun _ => lasting_pure _
    · refine (lasting_members (fun read key r hr => ?_) []).bind fun _ => lasting_pure _
      cases hr
      exact ih.bind fun _ => lasting_pure _

/-! ### Whole texts -/

section Whole

variable {reading : Reading Reason α} {s : String}

theorem readAll_of_error {e : ReadError Reason} (h : reading s.toList = .error e) :
    readAll reading s = .error e := by
  unfold readAll Reading.run
  rw [bind_of_error h]
  rfl

theorem readAll_eq_trailingText {a : α} {rest : List Char} (h : reading s.toList = .ok (a, rest))
    (hrest : rest.dropWhile isBlank ≠ []) :
    readAll reading s = .error (.unreadable (.malformed .trailingText)) := by
  unfold readAll Reading.run
  have hlast : ((do skipBlanks; return a) : Reading Reason α) rest =
      .ok (a, rest.dropWhile isBlank) := rfl
  rw [bind_of_ok h, hlast]
  cases hleft : rest.dropWhile isBlank with
  | nil => exact absurd hleft hrest
  | cons c left => rfl

/-- An error other than an early end stays when the text goes on. -/
theorem readAll_append_of_error (h : Lasting Ends reading) {e : ReadError Reason}
    (hread : readAll reading s = .error e) (hearly : ¬ e.EndsEarly) {t : String}
    (ht : Ends t.toList) : readAll reading (s ++ t) = .error e := by
  cases hs : reading s.toList with
  | error e' =>
    rw [readAll_of_error hs] at hread
    cases hread
    have hlonger := h.error hs hearly ht
    rw [← String.toList_append] at hlonger
    exact readAll_of_error hlonger
  | ok result =>
    obtain ⟨a, rest⟩ := result
    have hlonger := h.ok hs fun _ => ht
    rw [← String.toList_append] at hlonger
    have hne : rest.dropWhile isBlank ≠ [] := fun hblank => by
      rw [readAll_eq_ok_iff.2 ⟨rest, hs, hblank⟩] at hread
      cases hread
    rw [readAll_eq_trailingText hs hne] at hread
    rw [readAll_eq_trailingText hlonger (by simp [List.dropWhile_append, hne])]
    exact hread

/-- Behind a text that is read only blanks may stand. -/
theorem readAll_append_of_ok (h : Closes reading) {a b : α} (hread : readAll reading s = .ok a)
    (t : String) :
    readAll reading (s ++ t) = .ok b ↔ b = a ∧ ∀ c ∈ t.toList, isBlank c = true := by
  obtain ⟨rest, hs, hrest⟩ := readAll_eq_ok_iff.1 hread
  have hlonger := h a hs t.toList
  have hblank : (rest ++ t.toList).dropWhile isBlank = [] ↔ ∀ c ∈ t.toList, isBlank c = true := by
    simp [List.dropWhile_append, hrest]
  rw [readAll_eq_ok_iff, String.toList_append, hlonger]
  constructor
  · rintro ⟨_, ⟨⟩, hleft⟩
    exact ⟨rfl, hblank.1 hleft⟩
  · rintro ⟨rfl, hall⟩
    exact ⟨_, rfl, hblank.2 hall⟩

end Whole

end Json

end DocTree
