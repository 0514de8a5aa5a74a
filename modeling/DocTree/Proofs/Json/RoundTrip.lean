import DocTree.Proofs.Json.Content
import DocTree.Proofs.Json.Significand

/-!
# JSON that is read back

`value_write`: the text of a value is read as that value, whatever follows it that is no part of a
numeral, as long as no more levels are needed than may be open (`nesting`).  A string needs no more
than that every character is read back from its escape, and a container that its items or members
are: the commas between them tell where one ends.

A double is the exception.  If every numeral denotes the nearest double, it is read back as well
(`readAll_render_nearest`).  But numbers are read in steps, and then another double may be read for what
is written for one.  So a value comes back with its doubles as they are read (`Json.asRead`), and
`Json.ReadsBack` says of it that nothing is lost by that.  It is so for every double of at most fifteen
digits none of which is far from the point (`floatAsRead_of_isShort`).
-/

namespace DocTree.Json

open Reading

variable {Reason : Type}

/-! ### Nesting -/

mutual

/-- The number of containers that are open at the same time in the text of a value. -/
def nesting : Json → Nat
  | array items => nestingItems items + 1
  | object members => nestingMembers members + 1
  | _ => 0

/-- The same for items beside each other. -/
def nestingItems : List Json → Nat
  | [] => 0
  | item :: rest => max item.nesting (nestingItems rest)

/-- The same for members beside each other. -/
def nestingMembers : List (String × Json) → Nat
  | [] => 0
  | (_, value) :: rest => max value.nesting (nestingMembers rest)

end

/-! ### Doubles that are changed -/

mutual

/-- The value with every double in it changed. -/
def mapFloats (change : Binary64.Finite → Binary64.Finite) : Json → Json
  | float x => float (change x)
  | array items => array (mapFloatsItems change items)
  | object members => object (mapFloatsMembers change members)
  | scalar => scalar

/-- The same for items beside each other. -/
def mapFloatsItems (change : Binary64.Finite → Binary64.Finite) : List Json → List Json
  | [] => []
  | item :: rest => item.mapFloats change :: mapFloatsItems change rest

/-- The same for members beside each other. -/
def mapFloatsMembers (change : Binary64.Finite → Binary64.Finite) :
    List (String × Json) → List (String × Json)
  | [] => []
  | (key, value) :: rest => (key, value.mapFloats change) :: mapFloatsMembers change rest

end

section MapFloats

variable (change : Binary64.Finite → Binary64.Finite)

theorem mapFloatsItems_eq_map (items : List Json) :
    mapFloatsItems change items = items.map (mapFloats change) := by
  induction items with
  | nil => rfl
  | cons item rest ih => rw [mapFloatsItems, ih, List.map_cons]

theorem mapFloatsMembers_eq_map (members : List (String × Json)) :
    mapFloatsMembers change members = members.map fun m => (m.1, m.2.mapFloats change) := by
  induction members with
  | nil => rfl
  | cons m rest ih =>
    obtain ⟨key, value⟩ := m
    rw [mapFloatsMembers, ih, List.map_cons]

end MapFloats

mutual

theorem mapFloats_id : ∀ j : Json, j.mapFloats id = j
  | array items => by rw [mapFloats, mapFloatsItems_id items]
  | object members => by rw [mapFloats, mapFloatsMembers_id members]
  | null | bool _ | integer _ | float _ | string _ => by simp [mapFloats]

theorem mapFloatsItems_id : ∀ items : List Json, mapFloatsItems id items = items
  | [] => rfl
  | item :: rest => by rw [mapFloatsItems, mapFloats_id item, mapFloatsItems_id rest]

theorem mapFloatsMembers_id : ∀ members : List (String × Json), mapFloatsMembers id members = members
  | [] => rfl
  | (key, value) :: rest => by rw [mapFloatsMembers, mapFloats_id value, mapFloatsMembers_id rest]

end

/-! ### Strings -/

theorem hexQuad_cons {a b c d : Char} {code : Nat} (rest : List Char)
    (hsize : 4 ≤ (String.ofList [a, b, c, d]).utf8ByteSize) (hcode : ofHex? [a, b, c, d] = some code) :
    (hexQuad : Reading Reason Nat) (a :: b :: c :: d :: rest) = .ok (code, rest) := by
  have htake : (a :: b :: c :: d :: rest).take 4 = [a, b, c, d] := rfl
  simp only [hexQuad, htake, hcode, if_neg (Nat.not_lt.2 hsize)]
  rfl

/-- The escape of a control is that of its code. -/
theorem hexQuad_control {code : Nat} (h : code < 0x20) (rest : List Char) :
    (hexQuad : Reading Reason Nat) ('0' :: '0' :: (hexPair code ++ rest)) = .ok (code, rest) := by
  have hall : ∀ code < 0x20,
      4 ≤ (String.ofList ['0', '0', Nat.digitChar (code / 16), Nat.digitChar (code % 16)]).utf8ByteSize ∧
        ofHex? ['0', '0', Nat.digitChar (code / 16), Nat.digitChar (code % 16)] = some code := by
    decide
  exact hexQuad_cons rest (hall code h).1 (hall code h).2

/-- A character is read back from its escape. -/
theorem stringChar?_escapeChar (c : Char) (rest : List Char) :
    (stringChar? : Reading Reason (Option Char)) (escapeChar c ++ rest) = .ok (some c, rest) := by
  unfold escapeChar
  split
  case h_8 hquote hslash _ _ _ _ _ =>
    by_cases hlt : c.toNat < 0x20
    · have hback : c.toNat < 0xD800 ∨ 0xDFFF < c.toNat := .inl (by omega)
      have hunicode : (unicodeEscape : Reading Reason Char) ('0' :: '0' :: (hexPair c.toNat ++ rest)) =
          .ok (c, rest) := by
        rw [unicodeEscape, bind_of_ok (hexQuad_control hlt rest), if_pos hback, Char.ofNat_toNat]
        rfl
      have hescape : (escape '"' : Reading Reason Char)
          ('u' :: '0' :: '0' :: (hexPair c.toNat ++ rest)) = .ok (c, rest) := hunicode
      rw [if_pos hlt]
      change ((escape '"' >>= fun c => pure (some c)) : Reading Reason (Option Char))
        ('u' :: '0' :: '0' :: (hexPair c.toNat ++ rest)) = _
      rw [bind_of_ok hescape]
      rfl
    · have hnext : (next .string : Reading Reason Char) (c :: rest) = .ok (c, rest) := rfl
      rw [if_neg hlt, List.singleton_append, stringChar?, bind_of_ok hnext]
      split
      next => exact absurd rfl hquote
      next => exact absurd rfl hslash
      next => rw [if_neg hlt]; rfl
  all_goals rfl

theorem escapeChar_ne_nil (c : Char) : escapeChar c ≠ [] := by
  unfold escapeChar
  split
  case h_8 => by_cases hlt : c.toNat < 0x20 <;> simp [hlt]
  all_goals simp

/-- A string is read back, behind its opening quote. -/
theorem stringRest_write (s : String) (rest : List Char) :
    (stringRest : Reading Reason String) (s.toList.flatMap escapeChar ++ '"' :: rest) =
      .ok (s, rest) := by
  have hchars : (many .string stringChar? : Reading Reason (List Char))
      (s.toList.flatMap escapeChar ++ '"' :: rest) = .ok (s.toList.map id, rest) :=
    many_of_pieces (fun _ => True) (fun c _ after _ => stringChar?_escapeChar c after)
      (fun _ _ _ => trivial) trivial rfl (fun c _ => escapeChar_ne_nil c) (List.cons_ne_nil _ _)
  rw [stringRest, bind_of_ok hchars, List.map_id, String.ofList_toList]
  rfl

/-! ### Numbers -/

/-- `read` of a double is the one that `round` takes for the numeral that is written for it. -/
def ReadsAs (round : Numeral → Option Binary64.Finite) (read : Binary64.Finite → Binary64.Finite) :
    Prop :=
  ∀ x : Binary64.Finite, ∃ w : Numeral.Written, w.Valid ∧ floatLayout.magnitude x = w.write ∧
    (∀ negative, (w.toNumeral negative).plain = false) ∧
    round (w.toNumeral x.negative) = some (read x)

/-- Of the nearest doubles every one is read back. -/
theorem readsAs_nearest? : ReadsAs Numeral.nearest? id := by
  intro x
  obtain ⟨w, hvalid, htext, hplain, hshows⟩ :=
    Numeral.exists_written_magnitude (l := floatLayout) rfl x
  exact ⟨w, hvalid, htext, hplain, hshows.nearest?_eq⟩

variable {round : Numeral → Option Binary64.Finite} {read : Binary64.Finite → Binary64.Finite}

/-- A numeral begins with a digit. -/
theorem exists_cons_numeral {w : Numeral.Written} (hw : w.Valid) :
    ∃ c text, w.write = c :: text ∧ c.isDigit = true := by
  obtain ⟨c, digits, hc⟩ := List.exists_cons_of_ne_nil hw.whole.1.1
  have hdigit : c.isDigit = true := hw.whole.1.2 c (by rw [hc]; exact List.mem_cons_self)
  rw [Numeral.Written.write, hc, List.cons_append]
  exact ⟨c, _, rfl, hdigit⟩

/-- A number is read back from its numeral behind its sign. -/
theorem number_write {w : Numeral.Written} (hw : w.Valid) {negative : Bool} {j : Json}
    (hj : (w.toNumeral negative).toJsonBy? round = some j) {rest : List Char}
    (hrest : Numeral.Ends rest) :
    (numberBy round : Reading Reason Head) ((if negative then '-' :: w.write else w.write) ++ rest) =
      .ok (j.head, rest) := by
  have hunsigned := @Numeral.unsigned_write Reason _ hw negative _ hrest
  cases negative with
  | true =>
    have hsign : (takeIf ['-'] : Reading Reason (Option Char)) ('-' :: (w.write ++ rest)) =
        .ok (some '-', w.write ++ rest) := takeIf_of_mem (by decide) _
    rw [if_pos rfl, List.cons_append, numberBy, bind_of_ok hsign, Option.isSome_some,
      bind_of_ok hunsigned, hj]
    rfl
  | false =>
    have hsign : (takeIf ['-'] : Reading Reason (Option Char)) (w.write ++ rest) =
        .ok (none, w.write ++ rest) := by
      obtain ⟨c, text, hc, hdigit⟩ := exists_cons_numeral hw
      rw [hc]
      refine takeIf_of_not_mem ?_
      rintro d ⟨⟩ hmem
      rw [List.mem_singleton.1 hmem] at hdigit
      exact absurd hdigit (by decide)
    rw [if_neg Bool.false_ne_true, numberBy, bind_of_ok hsign, Option.isSome_none,
      bind_of_ok hunsigned, hj]
    rfl

/-- The digits of an integer, without its sign. -/
def Integer.written (n : Integer) : Numeral.Written := ⟨Nat.toDigits 10 n.val.natAbs, none, none⟩

theorem Integer.toInt_written (n : Integer) :
    (n.written.toNumeral (decide (n.val < 0))).toInt = n.val := by
  simp only [Numeral.toInt, written, Numeral.Written.toNumeral, Numeral.ofDigits_toDigits,
    decide_eq_true_eq]
  split <;> omega

/-- The numeral of an integer. -/
theorem exists_written_integer (n : Integer) : ∃ w : Numeral.Written, w.Valid ∧
    n.write = (if decide (n.val < 0) then '-' :: w.write else w.write) ∧
      ∀ round, (w.toNumeral (decide (n.val < 0))).toJsonBy? round = some (.integer n) := by
  refine ⟨n.written, ⟨Numeral.wholeDigits_toDigits _, nofun, nofun⟩, ?_, fun round => ?_⟩
  · by_cases hneg : n.val < 0 <;>
      simp [Integer.write, hneg, Integer.written, Numeral.Written.write,
        Numeral.Written.fractionText, Numeral.Written.powerText]
  · -- an integer that is zero has no sign
    have hsign : (!(decide (n.val < 0) && n.val == 0)) = true := by
      have hzero : 0 ≤ n.val ∨ n.val ≠ 0 := by omega
      simpa using hzero
    have hof : Integer.ofInt? n.val = some n := by
      rw [Integer.ofInt?, dif_pos n.inRange]
    rw [Numeral.toJsonBy?, Integer.toInt_written, hof]
    exact if_pos hsign

/-- The numeral of a double. -/
theorem exists_written_float (h : ReadsAs round read) (x : Binary64.Finite) :
    ∃ w : Numeral.Written, w.Valid ∧
      floatLayout.write x = (if x.negative then '-' :: w.write else w.write) ∧
        (w.toNumeral x.negative).toJsonBy? round = some (.float (read x)) := by
  obtain ⟨w, hvalid, htext, hplain, hvalue⟩ := h x
  refine ⟨w, hvalid, by rw [Layout.write, htext], ?_⟩
  simp only [Numeral.toJsonBy?, hplain, Bool.false_and, hvalue]
  rfl

/-! ### Tokens -/

/-- A character that no blank and no bracket, but some value begins with. -/
def StartsValue (c : Char) : Prop := isBlank c = false ∧ c ∉ [']', '}', ',', ':']

theorem startsValue_of_isDigit {c : Char} (h : c.isDigit = true) : StartsValue c := by
  have hne : ∀ d : Char, d.isDigit = false → c ≠ d := by
    rintro d hd rfl
    simp [hd] at h
  refine ⟨?_, ?_⟩
  · simp [isBlank, hne ' ' (by decide), hne '\t' (by decide), hne '\n' (by decide),
      hne '\r' (by decide)]
  · simp [hne ']' (by decide), hne '}' (by decide), hne ',' (by decide), hne ':' (by decide)]

theorem skipBlanks_of_head {text : List Char} (h : ∀ c ∈ text.head?, isBlank c = false) :
    (skipBlanks : Reading Reason Unit) text = .ok ((), text) := by
  cases text with
  | nil => rfl
  | cons c text => simp [skipBlanks, skipWhile, h c rfl]

theorem token_of_number {c : Char} (h : c = '-' ∨ c.isDigit = true) (text : List Char) :
    (tokenBy round : Reading Reason Head) (c :: text) = numberBy round (c :: text) := by
  have hblank : isBlank c = false := by
    rcases h with rfl | h
    · decide
    · exact (startsValue_of_isDigit h).1
  have hskip : (skipBlanks : Reading Reason Unit) (c :: text) = .ok ((), c :: text) :=
    skipBlanks_of_head (by rintro d ⟨⟩; exact hblank)
  have hpeek : (peek : Reading Reason (Option Char)) (c :: text) = .ok (some c, c :: text) := rfl
  have hne : ∀ d : Char, d ≠ '-' → d.isDigit = false → some c ≠ some d := by
    rintro d hd hdigit ⟨⟩
    simp [hd, hdigit] at h
  rw [tokenBy, bind_of_ok hskip, bind_of_ok hpeek]
  generalize hd : some c = d
  split
  next => cases hd
  case h_8 => cases hd; rw [if_pos h]
  all_goals exact absurd hd (hne _ (by decide) (by decide))

/-- The first character of a number. -/
theorem exists_cons_number {w : Numeral.Written} (hw : w.Valid) (negative : Bool) : ∃ c text,
    (if negative then '-' :: w.write else w.write) = c :: text ∧ (c = '-' ∨ c.isDigit = true) := by
  cases negative with
  | true => exact ⟨'-', w.write, rfl, .inl rfl⟩
  | false =>
    obtain ⟨c, text, hc, hdigit⟩ := exists_cons_numeral hw
    exact ⟨c, text, hc, .inr hdigit⟩

theorem token_write_number {w : Numeral.Written} (hw : w.Valid) {negative : Bool} {j : Json}
    (hj : (w.toNumeral negative).toJsonBy? round = some j) {rest : List Char}
    (hrest : Numeral.Ends rest) :
    (tokenBy round : Reading Reason Head) ((if negative then '-' :: w.write else w.write) ++ rest) =
      .ok (j.head, rest) := by
  rw [← number_write hw hj hrest]
  obtain ⟨c, text, htext, hc⟩ := exists_cons_number hw negative
  rw [htext, List.cons_append]
  exact token_of_number hc _

theorem word_append (w : List Char) (head : Head) (rest : List Char) :
    ((do word w; return head) : Reading Reason Head) (w ++ rest) = .ok (head, rest) := by
  rw [word, bind_of_ok (expect_append _ _ w rest)]
  rfl

/-- A scalar is read back at once. -/
theorem token_write (hreads : ReadsAs round read) {j : Json} (h : j.isScalar = true)
    {rest : List Char} (hrest : Numeral.Ends rest) :
    (tokenBy round : Reading Reason Head) (j.write ++ rest) = .ok ((j.mapFloats read).head, rest) := by
  -- the first character tells which token it is
  cases j with
  | array items => cases h
  | object members => cases h
  | null => exact word_append ['n', 'u', 'l', 'l'] .null rest
  | bool b =>
    cases b with
    | true => exact word_append ['t', 'r', 'u', 'e'] (.bool true) rest
    | false => exact word_append ['f', 'a', 'l', 's', 'e'] (.bool false) rest
  | integer n =>
    obtain ⟨w, hvalid, htext, hvalue⟩ := exists_written_integer n
    rw [write, htext]
    exact token_write_number hvalid (hvalue round) hrest
  | float x =>
    obtain ⟨w, hvalid, htext, hvalue⟩ := exists_written_float hreads x
    rw [write, htext]
    exact token_write_number hvalid hvalue hrest
  | string s =>
    have htext : (string s).write ++ rest = '"' :: (s.toList.flatMap escapeChar ++ '"' :: rest) := by
      simp [write, writeString]
    rw [htext]
    change ((stringRest >>= fun s => pure (Head.string s)) : Reading Reason Head)
      (s.toList.flatMap escapeChar ++ '"' :: rest) = _
    rw [bind_of_ok (stringRest_write s rest)]
    rfl

/-- What a written value begins with. -/
theorem exists_cons_write (j : Json) : ∃ c text, j.write = c :: text ∧ StartsValue c := by
  have hnumber : ∀ {c : Char}, c = '-' ∨ c.isDigit = true → StartsValue c := by
    rintro c (rfl | hc)
    · exact ⟨by decide, by decide⟩
    · exact startsValue_of_isDigit hc
  cases j with
  | integer n =>
    obtain ⟨w, hvalid, htext, -⟩ := exists_written_integer n
    obtain ⟨c, text, hc, hstart⟩ := exists_cons_number hvalid (decide (n.val < 0))
    exact ⟨c, text, by rw [write, htext, hc], hnumber hstart⟩
  | float x =>
    obtain ⟨w, hvalid, htext, -⟩ := exists_written_float readsAs_nearest? x
    obtain ⟨c, text, hc, hstart⟩ := exists_cons_number hvalid x.negative
    exact ⟨c, text, by rw [write, htext, hc], hnumber hstart⟩
  | bool b => cases b <;> exact ⟨_, _, rfl, by decide, by decide⟩
  | null => exact ⟨_, _, rfl, by decide, by decide⟩
  | string s => exact ⟨_, _, rfl, by decide, by decide⟩
  | array items => exact ⟨_, _, rfl, by decide, by decide⟩
  | object members => exact ⟨_, _, rfl, by decide, by decide⟩

/-! ### Containers -/

theorem ends_cons {c : Char} (h : c.isDigit = false ∧ c ∉ ['.'] ∧ c ∉ ['e', 'E'])
    (rest : List Char) : Numeral.Ends (c :: rest) := by
  rintro d ⟨⟩
  exact h

theorem writeMoreItems_eq (js : List Json) :
    writeMoreItems js = js.flatMap fun j => ',' :: j.write := by
  induction js with
  | nil => rfl
  | cons j js ih => rw [writeMoreItems, ih, List.flatMap_cons]

theorem writeMoreMembers_eq (ms : List (String × Json)) :
    writeMoreMembers ms = ms.flatMap fun m => ',' :: (writeString m.1 ++ ':' :: m.2.write) := by
  induction ms with
  | nil => rfl
  | cons m ms ih =>
    obtain ⟨key, value⟩ := m
    rw [writeMoreMembers, ih, List.flatMap_cons]
    simp

section Containers

variable {value : Reading Reason Json} {say : Json → Json}

/-- An item stands where a value begins. -/
theorem anyItem_write (j : Json) (after : List Char) :
    (anyItem : Reading Reason Bool) (j.write ++ after) = .ok (true, j.write ++ after) := by
  obtain ⟨c, text, hc, hblank, hbracket⟩ := exists_cons_write j
  have hskip : (skipBlanks : Reading Reason Unit) (c :: (text ++ after)) =
      .ok ((), c :: (text ++ after)) := skipBlanks_of_head (by rintro d ⟨⟩; exact hblank)
  have hpeek : (peek : Reading Reason (Option Char)) (c :: (text ++ after)) =
      .ok (some c, c :: (text ++ after)) := rfl
  rw [hc, List.cons_append, anyItem, bind_of_ok hskip, bind_of_ok hpeek]
  generalize hd : some c = d
  split
  next => cases hd
  next =>
    cases hd
    exact absurd (by decide) hbracket
  next => rfl

theorem anotherItem_write (j : Json) (after : List Char) :
    (anotherItem : Reading Reason Bool) (',' :: (j.write ++ after)) =
      .ok (true, j.write ++ after) := by
  obtain ⟨c, text, hc, hblank, hbracket⟩ := exists_cons_write j
  have hskip : (skipBlanks : Reading Reason Unit) (c :: (text ++ after)) =
      .ok ((), c :: (text ++ after)) := skipBlanks_of_head (by rintro d ⟨⟩; exact hblank)
  have hpeek : (peek : Reading Reason (Option Char)) (c :: (text ++ after)) =
      .ok (some c, c :: (text ++ after)) := rfl
  have hne : some c ≠ some ']' := by
    rintro ⟨⟩
    exact hbracket (by decide)
  rw [hc, List.cons_append]
  change ((do
    skipBlanks
    if (← peek) = some ']' then reject .trailingComma else return true) : Reading Reason Bool)
      (c :: (text ++ after)) = _
  rw [bind_of_ok hskip, bind_of_ok hpeek, if_neg hne]
  rfl

/-- Items are read back if every single one is. -/
theorem items_write {js : List Json}
    (h : ∀ j ∈ js, ∀ rest, Numeral.Ends rest → value (j.write ++ rest) = .ok (say j, rest))
    (rest : List Char) : items value (writeItems js ++ ']' :: rest) = .ok (js.map say, rest) := by
  cases js with
  | nil => rfl
  | cons j js =>
    have hmore : many .list (laterItem? value)
        (js.flatMap (fun j => ',' :: j.write) ++ ']' :: rest) = .ok (js.map say, rest) := by
      refine many_of_pieces Numeral.Ends (fun b hb after hafter => ?_)
        (fun b _ after => ends_cons (by decide) _) (ends_cons (by decide) _) rfl (by simp) (by simp)
      rw [List.cons_append, laterItem?, bind_of_ok (anotherItem_write b after)]
      dsimp only
      rw [bind_of_ok (h b (List.mem_cons_of_mem _ hb) after hafter)]
      rfl
    have hends : Numeral.Ends (js.flatMap (fun j => ',' :: j.write) ++ ']' :: rest) := by
      cases js with
      | nil => exact ends_cons (by decide) _
      | cons j js => exact ends_cons (by decide) _
    rw [writeItems, writeMoreItems_eq, List.append_assoc, items, bind_of_ok (anyItem_write j _)]
    dsimp only
    rw [bind_of_ok (h j List.mem_cons_self _ hends), bind_of_ok hmore]
    rfl

theorem foldl_concat (f : String × Json → String × Json) (before ms : List (String × Json)) :
    ms.foldl (fun before m => before ++ [f m]) before = before ++ ms.map f := by
  induction ms generalizing before with
  | nil => exact (List.append_nil before).symm
  | cons m ms ih =>
    rw [List.foldl_cons, ih, List.append_assoc, List.singleton_append, List.map_cons]

theorem member_collect {key : String} {j : Json} {rest : List Char} (before : List (String × Json))
    (h : value (j.write ++ rest) = .ok (say j, rest)) :
    member (collect value) before key (':' :: (j.write ++ rest)) =
      .ok (before ++ [(key, say j)], rest) := by
  change ((value >>= fun j => pure (before ++ [(key, j)])) : Reading Reason _) (j.write ++ rest) = _
  rw [bind_of_ok h]
  rfl

theorem writeString_append (key : String) (after : List Char) :
    writeString key ++ after = '"' :: (key.toList.flatMap escapeChar ++ '"' :: after) := by
  simp [writeString]

theorem firstKey_write (key : String) (after : List Char) :
    (firstKey : Reading Reason (Option String)) (writeString key ++ after) =
      .ok (some key, after) := by
  rw [writeString_append]
  change ((stringRest >>= fun s => pure (some s)) : Reading Reason (Option String))
    (key.toList.flatMap escapeChar ++ '"' :: after) = _
  rw [bind_of_ok (stringRest_write key after)]
  rfl

theorem laterKey?_write (key : String) (after : List Char) :
    (laterKey? : Reading Reason (Option String)) (',' :: (writeString key ++ after)) =
      .ok (some key, after) := by
  rw [writeString_append]
  change ((stringRest >>= fun s => pure (some s)) : Reading Reason (Option String))
    (key.toList.flatMap escapeChar ++ '"' :: after) = _
  rw [bind_of_ok (stringRest_write key after)]
  rfl

/-- Members behind the first one are read back if the value of every single one is. -/
theorem laterMembers_write {ms : List (String × Json)}
    (h : ∀ m ∈ ms, ∀ rest, Numeral.Ends rest → value (m.2.write ++ rest) = .ok (say m.2, rest))
    (rest : List Char) (before : List (String × Json)) :
    laterMembers (collect value) before
      (ms.flatMap (fun m => ',' :: (writeString m.1 ++ ':' :: m.2.write)) ++ '}' :: rest) =
        .ok (before ++ ms.map (fun m => (m.1, say m.2)), rest) := by
  rw [← foldl_concat]
  -- a comma or the closing bracket follows every value, so that a numeral ends with it
  refine iterate_of_pieces Numeral.Ends (fun m hm before after hafter => ?_)
    (fun m _ after => ends_cons (by decide) _) (ends_cons (by decide) _) (fun _ => rfl)
    (by simp) (by simp) before
  have hmember := @member_collect Reason value say m.1 m.2 _ before (h m hm after hafter)
  rw [List.cons_append, List.append_assoc, List.cons_append, laterMember?,
    bind_of_ok (laterKey?_write m.1 _)]
  dsimp only
  rw [bind_of_ok hmember]
  rfl

/-- Members are read back if the value of every single one is. -/
theorem members_write {ms : List (String × Json)}
    (h : ∀ m ∈ ms, ∀ rest, Numeral.Ends rest → value (m.2.write ++ rest) = .ok (say m.2, rest))
    (rest : List Char) :
    members (collect value) [] (writeMembers ms ++ '}' :: rest) =
      .ok (ms.map fun m => (m.1, say m.2), rest) := by
  cases ms with
  | nil => rfl
  | cons m ms =>
    obtain ⟨key, j⟩ := m
    have hlater := laterMembers_write (fun m hm => h m (List.mem_cons_of_mem _ hm)) rest
      [(key, say j)]
    have hends : Numeral.Ends
        (ms.flatMap (fun m => ',' :: (writeString m.1 ++ ':' :: m.2.write)) ++ '}' :: rest) := by
      cases ms with
      | nil => exact ends_cons (by decide) _
      | cons m ms => exact ends_cons (by decide) _
    have hfirst := @member_collect Reason value say key j _ [] (h (key, j) List.mem_cons_self _ hends)
    have htext : writeMembers ((key, j) :: ms) ++ '}' :: rest =
        writeString key ++ (':' :: (j.write ++
          (ms.flatMap (fun m => ',' :: (writeString m.1 ++ ':' :: m.2.write)) ++ '}' :: rest))) := by
      simp [writeMembers, writeMoreMembers_eq]
    rw [htext, members, bind_of_ok (firstKey_write key _)]
    dsimp only
    rw [bind_of_ok hfirst]
    exact hlater

end Containers

/-! ### Values -/

theorem value_of_scalar (hreads : ReadsAs round read) {j : Json} (h : j.isScalar = true)
    (levels : Nat) {rest : List Char} (hrest : Numeral.Ends rest) :
    (valueBy round levels : Reading Reason Json) (j.write ++ rest) = .ok (j.mapFloats read, rest) := by
  have hwith : ∀ array object : Reading Reason Json,
      valueWithBy round array object (j.write ++ rest) = .ok (j.mapFloats read, rest) := by
    intro array object
    rw [valueWithBy, bind_of_ok (token_write hreads h hrest)]
    cases j with
    | array items => cases h
    | object members => cases h
    | _ => rfl
  cases levels with
  | zero => exact hwith _ _
  | succ levels => exact hwith _ _

mutual

/-- **The text of a value is read as that value**, its doubles as they are read, if as many containers
may be open as it nests. -/
theorem value_write (hreads : ReadsAs round read) : ∀ (j : Json) (levels : Nat) (rest : List Char),
    j.nesting ≤ levels → Numeral.Ends rest →
      (valueBy round levels : Reading Reason Json) (j.write ++ rest) = .ok (j.mapFloats read, rest)
  | .array js, levels, rest, h, _ => by
    obtain ⟨levels, rfl⟩ : ∃ l, levels = l + 1 := ⟨levels - 1, by simp only [nesting] at h; omega⟩
    have hitems := @items_write Reason _ _ js
      (items_of_nesting hreads js levels (by simp only [nesting] at h; omega)) rest
    have htext : (array js).write ++ rest = '[' :: (writeItems js ++ ']' :: rest) := by
      simp [write]
    rw [htext, valueBy, mapFloats, mapFloatsItems_eq_map]
    change ((do return .array (← items (valueBy round levels))) : Reading Reason Json)
      (writeItems js ++ ']' :: rest) = _
    rw [bind_of_ok hitems]
    rfl
  | .object ms, levels, rest, h, _ => by
    obtain ⟨levels, rfl⟩ : ∃ l, levels = l + 1 := ⟨levels - 1, by simp only [nesting] at h; omega⟩
    have hmembers := @members_write Reason _ _ ms
      (members_of_nesting hreads ms levels (by simp only [nesting] at h; omega)) rest
    have htext : (object ms).write ++ rest = '{' :: (writeMembers ms ++ '}' :: rest) := by
      simp [write]
    rw [htext, valueBy, mapFloats, mapFloatsMembers_eq_map]
    change ((do return .object (← members (collect (valueBy round levels)) [])) : Reading Reason Json)
      (writeMembers ms ++ '}' :: rest) = _
    rw [bind_of_ok hmembers]
    rfl
  | .null, levels, rest, _, hrest => value_of_scalar hreads rfl levels hrest
  | .bool _, levels, rest, _, hrest => value_of_scalar hreads rfl levels hrest
  | .integer _, levels, rest, _, hrest => value_of_scalar hreads rfl levels hrest
  | .float _, levels, rest, _, hrest => value_of_scalar hreads rfl levels hrest
  | .string _, levels, rest, _, hrest => value_of_scalar hreads rfl levels hrest

theorem items_of_nesting (hreads : ReadsAs round read) : ∀ (js : List Json) (levels : Nat),
    nestingItems js ≤ levels → ∀ j ∈ js, ∀ rest, Numeral.Ends rest →
      (valueBy round levels : Reading Reason Json) (j.write ++ rest) = .ok (j.mapFloats read, rest)
  | [], _, _, _, hmem => by cases hmem
  | j :: js, levels, h, j', hmem => by
    simp only [nestingItems] at h
    intro rest hrest
    rcases List.mem_cons.1 hmem with heq | hmem
    · rw [heq]
      exact value_write hreads j levels rest (by omega) hrest
    · exact items_of_nesting hreads js levels (by omega) j' hmem rest hrest

theorem members_of_nesting (hreads : ReadsAs round read) : ∀ (ms : List (String × Json))
    (levels : Nat), nestingMembers ms ≤ levels → ∀ m ∈ ms, ∀ rest, Numeral.Ends rest →
      (valueBy round levels : Reading Reason Json) (m.2.write ++ rest) =
        .ok (m.2.mapFloats read, rest)
  | [], _, _, _, hmem => by cases hmem
  | (key, j) :: ms, levels, h, m, hmem => by
    simp only [nestingMembers] at h
    intro rest hrest
    rcases List.mem_cons.1 hmem with heq | hmem
    · rw [heq]
      exact value_write hreads j levels rest (by omega) hrest
    · exact members_of_nesting hreads ms levels (by omega) m hmem rest hrest

end

/-- The same for whole texts. -/
theorem readAll_render_of_readsAs (hreads : ReadsAs round read) {j : Json} {levels : Nat}
    (h : j.nesting ≤ levels) :
    readAll (@valueBy Reason round levels) j.render = .ok (j.mapFloats read) := by
  refine readAll_eq_ok_iff.2 ⟨[], ?_, rfl⟩
  have hvalue := @value_write Reason _ _ hreads j levels [] h (by rintro c ⟨⟩)
  rwa [List.append_nil, ← String.toList_ofList (l := j.write)] at hvalue

/-- A value is read back from its text, if every numeral denotes the nearest double. -/
theorem readAll_render_nearest {j : Json} {levels : Nat} (h : j.nesting ≤ levels) :
    readAll (@valueBy Reason Numeral.nearest? levels) j.render = .ok j := by
  have hread := @readAll_render_of_readsAs Reason _ _ readsAs_nearest? j levels h
  rwa [mapFloats_id] at hread

/-! ### Numbers as they are read -/

/-- The double that is read for what is written for a double. -/
def floatAsRead (x : Binary64.Finite) : Binary64.Finite :=
  match parse (String.ofList (floatLayout.write x)) with
  | .ok (.float y) => y
  | _ => x

/-- Any function that tells what is read for a written double is this one. -/
theorem floatAsRead_eq (hreads : ReadsAs Numeral.toFinite? read) (x : Binary64.Finite) :
    floatAsRead x = read x := by
  have hparse : parse (String.ofList (floatLayout.write x)) = .ok (.float (read x)) := by
    have h := @readAll_render_of_readsAs Empty _ _ hreads (.float x) maxNesting (Nat.zero_le _)
    rwa [mapFloats] at h
  rw [floatAsRead, hparse]

/-- Some double is read for what is written for any one. -/
theorem readsAs_floatAsRead : ReadsAs Numeral.toFinite? floatAsRead := by
  have hexists (x : Binary64.Finite) : ∃ y, ∃ w : Numeral.Written, w.Valid ∧
      floatLayout.magnitude x = w.write ∧ (∀ negative, (w.toNumeral negative).plain = false) ∧
      (w.toNumeral x.negative).toFinite? = some y := by
    obtain ⟨w, hvalid, htext, hplain, hshows⟩ :=
      Numeral.exists_written_magnitude (l := floatLayout) rfl x
    obtain ⟨y, hy⟩ := hshows.exists_toFinite? x.negative
    exact ⟨y, w, hvalid, htext, hplain, hy⟩
  choose read hreads using hexists
  rw [funext (floatAsRead_eq hreads)]
  exact hreads

/-- **A double with a short decimal is read back.** -/
theorem floatAsRead_of_isShort {x : Binary64.Finite}
    (h : x.steps ≠ 0 → (x.shortest .toEven).IsShort) : floatAsRead x = x := by
  obtain ⟨w, hvalid, htext, -, hshows⟩ := Numeral.exists_written_magnitude (l := floatLayout) rfl x
  obtain ⟨w', hvalid', htext', -, hread⟩ := readsAs_floatAsRead x
  have hnumeral := Numeral.Written.toNumeral_eq_of_write_eq hvalid' hvalid
    (htext'.symm.trans htext) x.negative
  rw [hnumeral, hshows.toFinite?_eq h] at hread
  exact (Option.some.inj hread).symm

@[simp] theorem floatAsRead_zero (negative : Bool) : floatAsRead (.zero negative) = .zero negative :=
  floatAsRead_of_isShort fun h => absurd rfl h

/-- The value with its doubles as they are read for what is written for them. -/
def asRead (j : Json) : Json := j.mapFloats floatAsRead

/-- What is written for the doubles of the value is read as these doubles. -/
def ReadsBack (j : Json) : Prop := j.asRead = j

theorem map_eq_self_iff {α : Type} {f : α → α} {as : List α} : as.map f = as ↔ ∀ a ∈ as, f a = a := by
  have hmap : as.map f = as.map id ↔ ∀ a ∈ as, f a = id a := List.map_inj_left
  rwa [List.map_id] at hmap

@[simp] theorem readsBack_float_iff {x : Binary64.Finite} :
    (float x).ReadsBack ↔ floatAsRead x = x := by
  simp [ReadsBack, asRead, mapFloats]

@[simp] theorem readsBack_array_iff {items : List Json} :
    (array items).ReadsBack ↔ ∀ item ∈ items, item.ReadsBack := by
  simp [ReadsBack, asRead, mapFloats, mapFloatsItems_eq_map, map_eq_self_iff]

@[simp] theorem readsBack_object_iff {members : List (String × Json)} :
    (object members).ReadsBack ↔ ∀ m ∈ members, m.2.ReadsBack := by
  simp [ReadsBack, asRead, mapFloats, mapFloatsMembers_eq_map, map_eq_self_iff]

@[simp] theorem readsBack_null : null.ReadsBack := by simp [ReadsBack, asRead, mapFloats]

@[simp] theorem readsBack_bool (b : Bool) : (bool b).ReadsBack := by
  simp [ReadsBack, asRead, mapFloats]

@[simp] theorem readsBack_integer (n : Integer) : (integer n).ReadsBack := by
  simp [ReadsBack, asRead, mapFloats]

@[simp] theorem readsBack_string (s : String) : (string s).ReadsBack := by
  simp [ReadsBack, asRead, mapFloats]

/-- A value is read from its text, with its doubles as they are read. -/
theorem readAll_render_asRead {j : Json} (h : j.nesting ≤ maxNesting) :
    readAll (@value Reason maxNesting) j.render = .ok j.asRead :=
  readAll_render_of_readsAs readsAs_floatAsRead h

/-- **A value is read back from its text**, if its doubles are. -/
theorem readAll_render {j : Json} (h : j.nesting ≤ maxNesting) (hback : j.ReadsBack) :
    readAll (@value Reason maxNesting) j.render = .ok j := by
  rw [readAll_render_asRead h, hback]

end DocTree.Json
