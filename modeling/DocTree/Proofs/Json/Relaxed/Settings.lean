import DocTree.Proofs.Json.Relaxed.Literal
import DocTree.Proofs.Json.RoundTrip

/-!
# Settings that are read back

Objects whose values are strings and truth values, written as strict JSON writes them, but with gaps
around all tokens and perhaps a comma behind the last member.  The strict escapes are read the same in
relaxed JSON (`stringChar?_of_strict`), a gap ends a word as a bracket or a comma does, and so the object
is read member by member (`parse_of_spaced`).  So the members are what the text says as it is written
(`Literal.isValueOf_of_spaced`).
-/

namespace DocTree.Json.Relaxed

open Reading

variable {Reason : Type}

/-! ### Strings and words -/

/-- What a string holds in strict JSON, it holds here. -/
theorem stringChar?_of_strict {text : List Char} {result : Option Char × List Char}
    (h : (Json.stringChar? : Reading Reason (Option Char)) text = .ok result) :
    (stringChar? '"' : Reading Reason (Option Char)) text = .ok result := by
  obtain ⟨o, rest⟩ := result
  -- relaxed strings only lack the check for raw controls
  rw [Json.stringChar?, bind_eq_ok_iff] at h
  rw [stringChar?, bind_eq_ok_iff]
  obtain ⟨c, mid, hnext, h⟩ := h
  refine ⟨c, mid, hnext, ?_⟩
  split at h
  next => exact h
  next => exact h
  next hquote hslash =>
    rw [if_neg hquote, if_neg hslash]
    split at h
    · cases h
    · exact h

theorem wordValue_of_find (word : String) {j : Json} {rest : List Char}
    (h : wordValues.find? (fun (w, _) => startsWithValue (word.toList ++ rest) w) = some (word, j)) :
    (wordValue : Reading Reason Json) (word.toList ++ rest) = .ok (j, rest) := by
  simp only [wordValue, h]
  rw [← String.length_toList, List.drop_left]

theorem wordValue_bool (b : Bool) {rest : List Char}
    (hrest : ∀ c ∈ rest.head?, Text.isAlphanumeric c = false) :
    (wordValue : Reading Reason Json) ((bool b).write ++ rest) = .ok (.bool b, rest) := by
  cases b with
  | true =>
    have hword : startsWithValue ("true".toList ++ rest) "true" = true :=
      startsWithValue_append_right rfl hrest
    exact wordValue_of_find "true" (by simp only [wordValues, List.find?_cons, hword])
  | false =>
    have hword : startsWithValue ("false".toList ++ rest) "false" = true :=
      startsWithValue_append_right rfl hrest
    have hother : startsWithValue ("false".toList ++ rest) "true" = false := rfl
    exact wordValue_of_find "false"
      (by simp only [wordValues, List.find?_cons, hother, hword])

theorem stringRest_of_strict {text rest : List Char} {s : String}
    (h : (Json.stringRest : Reading Reason String) text = .ok (s, rest)) :
    (stringRest '"' : Reading Reason String) text = .ok (s, rest) := by
  rw [Json.stringRest, bind_eq_ok_iff] at h
  obtain ⟨chars, mid, hchars, h⟩ := h
  rw [many_apply] at hchars
  have hmany : (many .string (stringChar? '"') : Reading Reason (List Char)) text =
      .ok (chars, mid) := by
    rw [many_apply]
    exact manyWithin_of_imp (fun _ _ => stringChar?_of_strict) text _ _ hchars
  rw [stringRest, bind_of_ok hmany]
  exact h

/-- A string is read back from its strict form. -/
theorem stringRest_write (s : String) (rest : List Char) :
    (stringRest '"' : Reading Reason String) (s.toList.flatMap escapeChar ++ '"' :: rest) =
      .ok (s, rest) :=
  stringRest_of_strict (Json.stringRest_write s rest)

/-! ### Values -/

/-- The value is a string or a truth value. -/
def IsSetting : Json → Prop
  | string _ | bool _ => True
  | _ => False

/-- A setting is read back behind a gap, if no word goes on behind it. -/
theorem value_of_isSetting {j : Json} (hj : IsSetting j) {text rest : List Char}
    (hgap : Gap text (j.write ++ rest)) (hrest : ∀ c ∈ rest.head?, Text.isAlphanumeric c = false)
    {fuel : List Char} (hfuel : fuel ≠ []) :
    (value fuel : Reading Reason Json) text = .ok (j, rest) := by
  obtain ⟨c, fuel, rfl⟩ := List.exists_cons_of_ne_nil hfuel
  cases j with
  | string s =>
    rw [write, writeString_append] at hgap
    rw [value, bind_of_ok (skipGap_cons hgap (by decide))]
    change ((do return Json.string (← stringRest '"')) : Reading Reason Json)
      (s.toList.flatMap escapeChar ++ '"' :: rest) = _
    rw [bind_of_ok (stringRest_write s rest)]
    rfl
  | bool b =>
    -- neither word begins like a string, a number or a container
    obtain ⟨d, word, hword, hd⟩ : ∃ d word, (bool b).write = d :: word ∧ d ∈ ['t', 'f'] := by
      cases b
      · exact ⟨_, _, rfl, by decide⟩
      · exact ⟨_, _, rfl, by decide⟩
    have hread := @wordValue_bool Reason b rest hrest
    rw [hword, List.cons_append] at hgap hread
    simp only [List.mem_cons, List.not_mem_nil, or_false] at hd
    rcases hd with rfl | rfl
    · rw [value, bind_of_ok (skipGap_cons hgap (by decide)), ← hread]
      rfl
    · rw [value, bind_of_ok (skipGap_cons hgap (by decide)), ← hread]
      rfl
  | null | integer _ | float _ | array _ | object _ => cases hj

/-! ### Objects -/

/-- The tokens of the members of an object and of its closing bracket.  There is a comma behind every
member; behind the last one it may be left out. -/
def memberTokens (trailing : Bool) : List (String × Json) → List (List Char)
  | [] => [['}']]
  | (key, j) :: rest =>
    writeString key :: [':'] :: j.write ::
      ((if rest.isEmpty && !trailing then [] else [[',']]) ++ memberTokens trailing rest)

/-- The tokens of an object. -/
def objectTokens (trailing : Bool) (members : List (String × Json)) : List (List Char) :=
  ['{'] :: memberTokens trailing members

theorem key_writeString (key : String) (rest : List Char) :
    (Relaxed.key : Reading Reason String) (writeString key ++ rest) = .ok (key, rest) := by
  rw [writeString_append]
  change (stringRest '"' : Reading Reason String) (key.toList.flatMap escapeChar ++ '"' :: rest) = _
  rw [stringRest_write]

/-- Behind a value there is a comma, which is passed over, or the closing bracket. -/
theorem skipComma_of_begins {trailing : Bool} {members : List (String × Json)}
    {text rest : List Char}
    (h : Begins ((if members.isEmpty && !trailing then [] else [[',']]) ++
      memberTokens trailing members) text rest) :
    (∀ c ∈ text.head?, Text.isAlphanumeric c = false) ∧
      ∃ mid, (skipComma : Reading Reason Unit) text = .ok ((), mid) ∧
        Begins (memberTokens trailing members) mid rest := by
  by_cases hlast : (members.isEmpty && !trailing) = true
  · -- the closing bracket stays
    rw [if_pos hlast] at h
    obtain rfl : members = [] := by
      simp only [Bool.and_eq_true, List.isEmpty_iff] at hlast
      exact hlast.1
    obtain ⟨mid, hgap, h⟩ := begins_cons_iff.1 h
    have hskip : (skipGap : Reading Reason Unit) text = .ok ((), '}' :: mid) :=
      skipGap_cons hgap (by decide)
    have hnone : (takeIf [','] : Reading Reason (Option Char)) ('}' :: mid) =
        .ok (none, '}' :: mid) := takeIf_of_not_mem (by rintro d ⟨⟩; decide)
    refine ⟨isAlphanumeric_of_gap hgap (by decide +kernel), '}' :: mid, ?_, .cons .nil h⟩
    rw [skipComma, bind_of_ok hskip, bind_of_ok hnone]
    rfl
  · -- the comma is passed over
    rw [if_neg hlast] at h
    obtain ⟨mid, hgap, h⟩ := begins_cons_iff.1 h
    have hskip : (skipGap : Reading Reason Unit) text = .ok ((), ',' :: mid) :=
      skipGap_cons hgap (by decide)
    have hcomma : (takeIf [','] : Reading Reason (Option Char)) (',' :: mid) =
        .ok (some ',', mid) := takeIf_of_mem (by decide) _
    refine ⟨isAlphanumeric_of_gap hgap (by decide +kernel), mid, ?_, h⟩
    rw [skipComma, bind_of_ok hskip, bind_of_ok hcomma]
    rfl

/-- The first member is read back, and the others are left. -/
theorem entryOrClose_of_begins {trailing : Bool} {key : String} {j : Json} (hj : IsSetting j)
    {members : List (String × Json)} {text rest : List Char}
    (h : Begins (memberTokens trailing ((key, j) :: members)) text rest) {fuel : List Char}
    (hfuel : fuel ≠ []) :
    ∃ mid, (entryOrClose '}' (pair (value fuel)) : Reading Reason _) text = .ok (some (key, j), mid) ∧
      Begins (memberTokens trailing members) mid rest := by
  obtain ⟨afterKey, hkey, h⟩ := begins_cons_iff.1 h
  obtain ⟨afterColon, hcolon, h⟩ := begins_cons_iff.1 h
  obtain ⟨afterValue, hvalue, h⟩ := begins_cons_iff.1 h
  obtain ⟨hends, mid, hcomma, h⟩ := @skipComma_of_begins Reason _ _ _ _ h
  have hskip : (skipGap : Reading Reason Unit) afterKey = .ok ((), [':'] ++ afterColon) :=
    skipGap_cons hcolon (by decide)
  have hpair : (pair (value fuel) : Reading Reason _) (writeString key ++ afterKey) =
      .ok ((key, j), afterValue) := by
    rw [pair, bind_of_ok (key_writeString key afterKey), bind_of_ok hskip,
      bind_of_ok (expect_append .object .noColon [':'] afterColon),
      bind_of_ok (value_of_isSetting hj hvalue hends hfuel)]
    rfl
  refine ⟨mid, entryOrClose_of_read hkey ?_ hpair hcomma, h⟩
  rw [writeString_append]
  rintro c ⟨⟩
  decide

theorem manyWithin_pair_of_begins {trailing : Bool} {fuel : List Char} (hfuel : fuel ≠ [])
    {members : List (String × Json)} (hmembers : ∀ m ∈ members, IsSetting m.2) {text rest : List Char}
    (h : Begins (memberTokens trailing members) text rest) {rounds : List Char}
    (hrounds : members.length < rounds.length) :
    manyWithin .object (entryOrClose '}' (pair (value fuel)) : Reading Reason _) rounds text =
      .ok (members, rest) := by
  -- one round for every member, and one for the closing bracket
  induction members generalizing text rounds with
  | nil =>
    obtain ⟨c, rounds, rfl⟩ := List.exists_cons_of_length_pos hrounds
    rw [manyWithin, bind_of_ok (entryOrClose_of_close (by decide) h)]
    rfl
  | cons m members ih =>
    obtain ⟨c, rounds, rfl⟩ := List.exists_cons_of_length_pos (Nat.zero_lt_of_lt hrounds)
    obtain ⟨key, j⟩ := m
    obtain ⟨mid, hmember, h⟩ :=
      @entryOrClose_of_begins Reason _ _ _ (hmembers _ List.mem_cons_self) _ _ _ h _ hfuel
    have hrest := ih (fun m hm => hmembers m (List.mem_cons_of_mem _ hm)) h
      (Nat.lt_of_succ_lt_succ hrounds)
    rw [manyWithin, bind_of_ok hmember]
    dsimp only
    rw [bind_of_ok hrest]
    rfl

theorem nil_notMem_memberTokens (trailing : Bool) (members : List (String × Json)) :
    [] ∉ memberTokens trailing members := by
  induction members with
  | nil => simp [memberTokens]
  | cons m members ih =>
    obtain ⟨key, j⟩ := m
    obtain ⟨c, text, hwrite, -⟩ := exists_cons_write j
    have hcomma : [] ∉ (if members.isEmpty && !trailing then [] else [[',']] : List (List Char)) := by
      split <;> simp
    simp only [memberTokens, writeString, hwrite, List.cons_append, List.mem_cons, List.mem_append,
      reduceCtorEq, false_or, not_or]
    exact ⟨hcomma, ih⟩

theorem length_lt_length_memberTokens (trailing : Bool) (members : List (String × Json)) :
    members.length < (memberTokens trailing members).length := by
  induction members with
  | nil => exact Nat.zero_lt_one
  | cons m members ih =>
    simp only [memberTokens, List.length_cons, List.length_append]
    omega

theorem members_of_begins {trailing : Bool} {fuel : List Char} (hfuel : fuel ≠ [])
    {members : List (String × Json)} (hmembers : ∀ m ∈ members, IsSetting m.2) {text rest : List Char}
    (h : Begins (memberTokens trailing members) text rest) :
    (Relaxed.members (value fuel) : Reading Reason _) text = .ok (members, rest) := by
  have hlength := h.length_le (nil_notMem_memberTokens trailing members)
  have hrounds := length_lt_length_memberTokens trailing members
  rw [members_eq_many, many_apply]
  exact manyWithin_pair_of_begins hfuel hmembers h (by omega)

theorem flatten_memberTokens (members : List (String × Json)) :
    (memberTokens false members).flatten = writeMembers members ++ ['}'] := by
  induction members with
  | nil => rfl
  | cons m members ih =>
    obtain ⟨key, j⟩ := m
    cases members with
    | nil => simp [memberTokens, writeMembers, writeMoreMembers]
    | cons m members =>
      have hmore : writeMoreMembers (m :: members) = ',' :: writeMembers (m :: members) := rfl
      have hcomma : (if (m :: members).isEmpty && !false then [] else [[',']] : List (List Char)) =
          [[',']] := rfl
      rw [memberTokens, hcomma, writeMembers, hmore]
      simp [ih]

/-- The compact text of an object is its tokens without gaps. -/
theorem spaced_write (members : List (String × Json)) :
    Spaced (objectTokens false members) (object members).write := by
  have hflatten : (objectTokens false members).flatten ++ [] = (object members).write := by
    rw [List.append_nil, objectTokens, List.flatten_cons, flatten_memberTokens]
    rfl
  exact ⟨[], hflatten ▸ begins_flatten _ _, .nil⟩

/-- An object of strings and truth values is read from its tokens, whatever gaps are between them. -/
theorem parse_of_spaced {trailing : Bool} {members : List (String × Json)}
    (hmembers : ∀ m ∈ members, IsSetting m.2) {text : String}
    (h : Spaced (objectTokens trailing members) text.toList) :
    parse text = .ok (some (.object members)) := by
  obtain ⟨rest, h, hlast⟩ := h
  have htokens : [] ∉ objectTokens trailing members := by
    rw [objectTokens, List.mem_cons, not_or]
    exact ⟨nofun, nil_notMem_memberTokens trailing members⟩
  have hlength := h.length_le htokens
  have hrounds := length_lt_length_memberTokens trailing members
  rw [objectTokens, List.length_cons] at hlength
  obtain ⟨mid, hgap, h⟩ := begins_cons_iff.1 h
  -- both brackets are in the text, so there is a level left for the members
  obtain ⟨c, fuel, hfuel⟩ := List.exists_cons_of_length_pos (l := text.toList) (by omega)
  have hne : fuel ≠ [] := by
    rintro rfl
    rw [hfuel, List.length_singleton] at hlength
    omega
  have hskip : (skipGap : Reading Empty Unit) text.toList = .ok ((), '{' :: mid) :=
    skipGap_cons hgap (by decide)
  have hlast : (skipGap : Reading Empty Unit) rest = .ok ((), []) := skipGap_of_gap hlast nofun
  have hvalue : (value text.toList : Reading Empty Json) ('{' :: mid) =
      .ok (.object members, rest) := by
    have hagain : (skipGap : Reading Empty Unit) ('{' :: mid) = .ok ((), '{' :: mid) :=
      skipGap_cons .nil (by decide)
    have hread := @members_of_begins Empty trailing fuel hne members hmembers _ _ h
    rw [hfuel, value, bind_of_ok hagain]
    change ((do return Json.object (← Relaxed.members (value fuel))) : Reading Empty Json)
      mid = _
    rw [bind_of_ok hread]
    rfl
  rw [parse, run_eq_ok_iff, bind_of_ok hskip]
  change ((do
    let result ← value text.toList
    skipGap
    return some result) : Reading Empty (Option Json)) ('{' :: mid) = _
  rw [bind_of_ok hvalue, bind_of_ok hlast]
  rfl

/-! ### Settings as they are written -/

theorem isStringToken_writeString (s : String) : IsStringToken s (writeString s) := by
  have hread : (stringRest '"' : Reading Empty String) (s.toList.flatMap escapeChar ++ '"' :: []) =
      .ok (s, []) := stringRest_write s []
  obtain ⟨token, htoken, heq⟩ := isStringToken_of_stringRest (by decide) hread
  rw [List.append_nil] at heq
  rw [← heq] at htoken
  exact htoken

namespace Literal

/-- The value is written as a string or a truth value. -/
def IsSetting : Literal → Prop
  | string _ | bool _ => True
  | _ => False

instance : DecidablePred IsSetting := fun l => by
  cases l <;> unfold IsSetting <;> infer_instance

theorem IsSetting.toJson {l : Literal} (h : l.IsSetting) : Relaxed.IsSetting l.toJson := by
  cases l with
  | string | bool => trivial
  | _ => cases h

theorem IsSetting.tokens {l : Literal} (h : l.IsSetting) : Tokens l [l.toJson.write] := by
  cases l with
  | string s => exact .string (isStringToken_writeString s)
  | bool b => cases b with
    | true => exact .true
    | false => exact .false
  | _ => cases h

theorem memberTokens_of_isSetting (trailing : Bool) {members : List (String × Literal)}
    (h : ∀ m ∈ members, m.2.IsSetting) :
    MemberTokens members (memberTokens trailing (membersToJson members)) := by
  induction members with
  | nil => exact .close
  | cons head rest ih =>
    obtain ⟨key, l⟩ := head
    obtain ⟨hl, hrest⟩ := List.forall_mem_cons.1 h
    refine .member (.string (isStringToken_writeString key)) hl.tokens ?_ (ih hrest)
    split
    · exact .inl rfl
    · exact .inr rfl

/-- Strings and truth values under keys are the value of the text that consists of their tokens. -/
theorem isValueOf_of_spaced {trailing : Bool} {members : List (String × Literal)}
    (h : ∀ m ∈ members, m.2.IsSetting) {text : String}
    (htext : Spaced (objectTokens trailing (membersToJson members)) text.toList) :
    (object members).IsValueOf text := by
  refine ⟨parse_of_spaced (fun m hm => ?_) htext, _,
    .object (memberTokens_of_isSetting trailing h), htext⟩
  rw [membersToJson_eq_map] at hm
  obtain ⟨member, hmember, rfl⟩ := List.mem_map.1 hm
  exact (h member hmember).toJson

end Literal

end DocTree.Json.Relaxed
