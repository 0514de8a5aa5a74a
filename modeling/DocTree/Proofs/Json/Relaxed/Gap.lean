import DocTree.Json.Relaxed
import DocTree.Proofs.Reading

/-!
# Tokens and the gaps around them

What may stand between two tokens of relaxed JSON: white space and comments, in any number and order
(`Gap`).  It is passed over by `skipGap`, and nothing else is (`skipGap_eq_ok_iff`).  A text that has
given tokens with gaps before, between and behind them is `Spaced`; the part of it that a reading
takes is described by what it has in front (`Begins`).  Items and members alike are entries of their
containers (`entryOrClose`), each with a gap before it and perhaps a comma behind it.
-/

namespace DocTree

/-! ### Characters that are told apart -/

theorem Text.inRanges_eq_false_of_disjoint {ranges others : List (Nat × Nat)}
    (h : ∀ r ∈ ranges, ∀ s ∈ others, r.2 < s.1 ∨ s.2 < r.1) {c : Char}
    (hc : inRanges ranges c = true) : inRanges others c = false := by
  obtain ⟨r, hr, hin⟩ := List.any_eq_true.1 hc
  refine List.any_eq_false.2 fun s hs hother => ?_
  have hdisjoint := h r hr s hs
  simp only [Bool.and_eq_true, decide_eq_true_eq] at hin hother
  omega

theorem Text.isAlphanumeric_of_isBlank {c : Char} (h : isBlank c = true) :
    isAlphanumeric c = false :=
  inRanges_eq_false_of_disjoint (by decide +kernel) h

namespace Json.Relaxed

open Reading

variable {Reason : Type}

/-! ### Gaps -/

/-- Between the beginning of the text and the rest there is nothing but white space and comments.  A
comment in a line ends with the line or with the text, a comment in marks with the first mark that
closes it. -/
inductive Gap : List Char → List Char → Prop
  | nil {rest : List Char} : Gap rest rest
  | blank {c : Char} {text rest : List Char} (hc : Text.isBlank c = true) (h : Gap text rest) :
    Gap (c :: text) rest
  | line {comment text rest : List Char} (hcomment : '\n' ∉ comment) (h : Gap text rest) :
    Gap ('/' :: '/' :: (comment ++ '\n' :: text)) rest
  | lastLine {comment : List Char} (hcomment : '\n' ∉ comment) : Gap ('/' :: '/' :: comment) []
  | block {comment text rest : List Char} (hcomment : ¬ ['*', '/'] <:+: comment)
    (h : Gap text rest) : Gap ('/' :: '*' :: (comment ++ '*' :: '/' :: text)) rest

/-- A token may begin with the character. -/
def BeginsToken (c : Char) : Prop := c ≠ '/' ∧ Text.isBlank c = false

instance (c : Char) : Decidable (BeginsToken c) := inferInstanceAs (Decidable (_ ∧ _))

theorem Gap.trans {text mid rest : List Char} (h : Gap text mid) (h' : Gap mid rest) :
    Gap text rest := by
  induction h with
  | nil => exact h'
  | blank hc _ ih => exact .blank hc (ih h')
  | line hcomment _ ih => exact .line hcomment (ih h')
  | lastLine hcomment => cases h'; exact .lastLine hcomment
  | block hcomment _ ih => exact .block hcomment (ih h')

theorem Gap.length_le {text rest : List Char} (h : Gap text rest) : rest.length ≤ text.length := by
  induction h with
  | nil => exact Nat.le_refl _
  | lastLine => exact Nat.zero_le _
  | _ =>
    simp only [List.length_cons, List.length_append]
    omega

/-- Where a gap is, the text goes on with white space or a comment. -/
theorem Gap.eq_or_head {text rest : List Char} (h : Gap text rest) :
    text = rest ∨ ∃ c more, text = c :: more ∧ (Text.isBlank c = true ∨ c = '/') := by
  cases h with
  | nil => exact .inl rfl
  | blank hc => exact .inr ⟨_, _, rfl, .inl hc⟩
  | line => exact .inr ⟨_, _, rfl, .inr rfl⟩
  | lastLine => exact .inr ⟨_, _, rfl, .inr rfl⟩
  | block => exact .inr ⟨_, _, rfl, .inr rfl⟩

/-! ### Passing over gaps -/

theorem dropGap_line {comment : List Char} (h : '\n' ∉ comment) (rest : List Char) :
    (dropGap .line (comment ++ '\n' :: rest) : Except (ReadError Reason) (List Char)) =
      dropGap .between rest := by
  induction comment with
  | nil => rfl
  | cons c comment ih =>
    rw [List.mem_cons, not_or] at h
    rw [List.cons_append, dropGap, if_neg (Ne.symm h.1), ih h.2]

theorem dropGap_lastLine {comment : List Char} (h : '\n' ∉ comment) :
    (dropGap .line comment : Except (ReadError Reason) (List Char)) = .ok [] := by
  induction comment with
  | nil => rfl
  | cons c comment ih =>
    rw [List.mem_cons, not_or] at h
    rw [dropGap, if_neg (Ne.symm h.1), ih h.2]

/-- A comment in marks goes on as long as the closing mark is not in front. -/
theorem dropGap_block_cons {c : Char} {text : List Char}
    (h : ∀ rest, c = '*' → text ≠ '/' :: rest) :
    (dropGap .block (c :: text) : Except (ReadError Reason) (List Char)) = dropGap .block text := by
  rw [dropGap]
  exact fun rest hc heq => h rest hc heq

theorem dropGap_block {comment : List Char} (h : ¬ ['*', '/'] <:+: comment) (rest : List Char) :
    (dropGap .block (comment ++ '*' :: '/' :: rest) : Except (ReadError Reason) (List Char)) =
      dropGap .between rest := by
  induction comment with
  | nil => rfl
  | cons c comment ih =>
    have hrest : ¬ ['*', '/'] <:+: comment := fun hin =>
      h (hin.trans (List.suffix_cons c comment).isInfix)
    rw [List.cons_append, dropGap_block_cons, ih hrest]
    rintro more rfl heq
    cases comment with
    | nil => cases heq
    | cons d comment =>
      cases heq
      exact h ⟨[], comment, rfl⟩

theorem dropGap_between_cons {c : Char} (hc : c ≠ '/') (text : List Char) :
    (dropGap .between (c :: text) : Except (ReadError Reason) (List Char)) =
      if Text.isBlank c then dropGap .between text else .ok (c :: text) := by
  rw [dropGap.eq_def]
  exact if_neg hc

theorem dropGap_of_gap {text rest : List Char} (h : Gap text rest) :
    (dropGap .between text : Except (ReadError Reason) (List Char)) = dropGap .between rest := by
  induction h with
  | nil => rfl
  | blank hc _ ih =>
    have hslash : ∀ c, Text.isBlank c = true → c ≠ '/' := by
      rintro c hc rfl
      cases hc
    rw [dropGap_between_cons (hslash _ hc), if_pos hc, ih]
  | line hcomment _ ih => exact (dropGap_line hcomment _).trans ih
  | lastLine hcomment => exact dropGap_lastLine hcomment
  | block hcomment _ ih => exact (dropGap_block hcomment _).trans ih

theorem dropGap_of_beginsToken {c : Char} (hc : BeginsToken c) (rest : List Char) :
    (dropGap .between (c :: rest) : Except (ReadError Reason) (List Char)) = .ok (c :: rest) := by
  rw [dropGap_between_cons hc.1, hc.2]
  rfl

theorem skipGap_of_gap {text rest : List Char} (h : Gap text rest)
    (hrest : ∀ c ∈ rest.head?, BeginsToken c) :
    (skipGap : Reading Reason Unit) text = .ok ((), rest) := by
  have hdrop : (dropGap .between text : Except (ReadError Reason) (List Char)) = .ok rest := by
    rw [dropGap_of_gap h]
    cases rest with
    | nil => rfl
    | cons c rest => exact dropGap_of_beginsToken (hrest c rfl) rest
  rw [skipGap, hdrop]
  rfl

theorem skipGap_cons {text rest : List Char} {c : Char} (h : Gap text (c :: rest))
    (hc : BeginsToken c) : (skipGap : Reading Reason Unit) text = .ok ((), c :: rest) :=
  skipGap_of_gap h (by rintro d ⟨⟩; exact hc)

/-- What is passed over where a gap goes on: behind the beginning of a comment, up to its end and
what follows there. -/
def GoesOn : Place → List Char → List Char → Prop
  | .between, text, rest => Gap text rest
  | .line, text, rest =>
    ∃ comment, '\n' ∉ comment ∧
      (text = comment ∧ rest = [] ∨ ∃ more, text = comment ++ '\n' :: more ∧ Gap more rest)
  | .block, text, rest =>
    ∃ comment more, ¬ ['*', '/'] <:+: comment ∧ text = comment ++ '*' :: '/' :: more ∧ Gap more rest

/-- A comment in marks cannot be closed by what it goes on with, unless it begins with the mark. -/
theorem not_isInfix_cons {c : Char} {comment text : List Char} (h : ¬ ['*', '/'] <:+: comment)
    (hc : ∀ rest, c = '*' → comment ++ text ≠ '/' :: rest) : ¬ ['*', '/'] <:+: c :: comment := by
  rw [List.infix_cons_iff, not_or]
  refine ⟨?_, h⟩
  rintro ⟨rest, heq⟩
  obtain ⟨rfl, rfl⟩ := List.cons_eq_cons.1 heq
  exact hc _ rfl rfl

theorem goesOn_of_dropGap (place : Place) (text : List Char) {rest : List Char}
    (h : (dropGap place text : Except (ReadError Reason) (List Char)) = .ok rest) :
    GoesOn place text rest ∧ ∀ c ∈ rest.head?, BeginsToken c := by
  -- between tokens a comment of either kind may begin, and each kind has its own end
  fun_induction dropGap place text with
  | case1 =>
    cases h
    exact ⟨.nil, nofun⟩
  | case2 text ih =>
    -- the two slashes of a line comment
    obtain ⟨⟨comment, hcomment, ⟨rfl, rfl⟩ | ⟨more, rfl, hgap⟩⟩, hrest⟩ := ih h
    · exact ⟨.lastLine hcomment, hrest⟩
    · exact ⟨.line hcomment hgap, hrest⟩
  | case3 text ih =>
    -- the opening mark of a block comment
    obtain ⟨⟨comment, more, hcomment, rfl, hgap⟩, hrest⟩ := ih h
    exact ⟨.block hcomment hgap, hrest⟩
  | case4 => cases h
  | case5 c text hslash hblank ih =>
    obtain ⟨hgap, hrest⟩ := ih h
    exact ⟨.blank hblank hgap, hrest⟩
  | case6 c text hslash hblank =>
    cases h
    refine ⟨.nil, ?_⟩
    rintro d ⟨⟩
    exact ⟨hslash, by simpa using hblank⟩
  | case7 =>
    -- a line comment ends with the text
    cases h
    exact ⟨⟨[], by simp, .inl ⟨rfl, rfl⟩⟩, nofun⟩
  | case8 text ih =>
    obtain ⟨hgap, hrest⟩ := ih h
    exact ⟨⟨[], by simp, .inr ⟨text, rfl, hgap⟩⟩, hrest⟩
  | case9 c text hc ih =>
    obtain ⟨⟨comment, hcomment, hends⟩, hrest⟩ := ih h
    refine ⟨⟨c :: comment, by simp [hcomment, Ne.symm hc], ?_⟩, hrest⟩
    obtain ⟨rfl, rfl⟩ | ⟨more, rfl, hgap⟩ := hends
    · exact .inl ⟨rfl, rfl⟩
    · exact .inr ⟨more, rfl, hgap⟩
  | case10 => cases h
  | case11 text ih =>
    -- the closing mark of a block comment
    obtain ⟨hgap, hrest⟩ := ih h
    exact ⟨⟨[], text, by simp, rfl, hgap⟩, hrest⟩
  | case12 c text hc ih =>
    obtain ⟨⟨comment, more, hcomment, rfl, hgap⟩, hrest⟩ := ih h
    exact ⟨⟨c :: comment, more, not_isInfix_cons hcomment hc, rfl, hgap⟩, hrest⟩

theorem skipGap_eq_ok_iff {text rest : List Char} :
    (skipGap : Reading Reason Unit) text = .ok ((), rest) ↔
      Gap text rest ∧ ∀ c ∈ rest.head?, BeginsToken c := by
  constructor
  · intro h
    obtain ⟨_, hdrop, heq⟩ := exists_of_bind_eq_ok h
    cases heq
    exact goesOn_of_dropGap .between text hdrop
  · exact fun h => skipGap_of_gap h.1 h.2

/-! ### Tokens -/

/-- The text has the tokens in front, with a gap before each, and the rest behind them. -/
inductive Begins : List (List Char) → List Char → List Char → Prop
  | nil {rest : List Char} : Begins [] rest rest
  | cons {token : List Char} {tokens : List (List Char)} {text mid rest : List Char}
    (hgap : Gap text (token ++ mid)) (h : Begins tokens mid rest) : Begins (token :: tokens) text rest

/-- The text consists of the tokens, with gaps before, between and behind them. -/
def Spaced (tokens : List (List Char)) (text : List Char) : Prop :=
  ∃ rest, Begins tokens text rest ∧ Gap rest []

theorem begins_cons_iff {token : List Char} {tokens : List (List Char)} {text rest : List Char} :
    Begins (token :: tokens) text rest ↔ ∃ mid, Gap text (token ++ mid) ∧ Begins tokens mid rest := by
  constructor
  · rintro (_ | ⟨hgap, h⟩)
    exact ⟨_, hgap, h⟩
  · rintro ⟨_, hgap, h⟩
    exact .cons hgap h

theorem Begins.append {tokens more : List (List Char)} {text mid rest : List Char}
    (h : Begins tokens text mid) (h' : Begins more mid rest) : Begins (tokens ++ more) text rest := by
  induction h with
  | nil => exact h'
  | cons hgap _ ih => exact .cons hgap (ih h')

/-- A gap before tokens belongs to the first one. -/
theorem Begins.of_gap {tokens : List (List Char)} {text mid rest : List Char} (hne : tokens ≠ [])
    (hgap : Gap text mid) (h : Begins tokens mid rest) : Begins tokens text rest := by
  cases h with
  | nil => exact absurd rfl hne
  | cons hfirst h => exact .cons (hgap.trans hfirst) h

/-- There need be no gaps. -/
theorem begins_flatten (tokens : List (List Char)) (rest : List Char) :
    Begins tokens (tokens.flatten ++ rest) rest := by
  induction tokens with
  | nil => exact .nil
  | cons token tokens ih =>
    rw [List.flatten_cons, List.append_assoc]
    exact .cons .nil ih

/-- No token is empty, so there are no more of them than characters. -/
theorem Begins.length_le {tokens : List (List Char)} {text rest : List Char}
    (h : Begins tokens text rest) (hne : [] ∉ tokens) : tokens.length + rest.length ≤ text.length := by
  induction h with
  | nil => simp
  | @cons token tokens text mid rest hgap _ ih =>
    rw [List.mem_cons, not_or] at hne
    have hmore := ih hne.2
    have htoken : 0 < token.length := List.length_pos_iff.2 (Ne.symm hne.1)
    have hlength := hgap.length_le
    simp only [List.length_append, List.length_cons] at hlength ⊢
    omega

/-! ### Words -/

/-- A word value in front stays one if no letter and no digit is put behind it. -/
theorem startsWithValue_append_right {text rest : List Char} {word : String}
    (h : startsWithValue text word = true)
    (hrest : ∀ c ∈ rest.head?, Text.isAlphanumeric c = false) :
    startsWithValue (text ++ rest) word = true := by
  simp only [startsWithValue, Bool.and_eq_true, Bool.not_eq_true', List.isPrefixOf_iff_prefix] at h ⊢
  obtain ⟨⟨more, rfl⟩, hmore⟩ := h
  rw [← String.length_toList, List.drop_left] at hmore
  rw [List.append_assoc, ← String.length_toList, List.drop_left]
  refine ⟨List.prefix_append _ _, ?_⟩
  cases more with
  | nil =>
    cases rest with
    | nil => rfl
    | cons c rest => exact hrest c rfl
  | cons c more => exact hmore

/-- A token that begins with no letter and no digit ends a word, with a gap before it or without. -/
theorem isAlphanumeric_of_gap {text rest : List Char} {c : Char} (h : Gap text (c :: rest))
    (hc : Text.isAlphanumeric c = false) : ∀ d ∈ text.head?, Text.isAlphanumeric d = false := by
  obtain rfl | ⟨d, more, rfl, hd | rfl⟩ := h.eq_or_head
  · rintro d ⟨⟩
    exact hc
  · rintro _ ⟨⟩
    exact Text.isAlphanumeric_of_isBlank hd
  · rintro _ ⟨⟩
    decide +kernel

/-! ### Containers -/

section Containers

variable {α : Type} {close : Char} {read : Reading Reason α} {text mid rest : List Char} {a : α}

/-- An entry of a container and the comma behind it, if there is one; none if the container closes. -/
def entryOrClose (close : Char) (read : Reading Reason α) : Reading Reason (Option α) := do
  skipGap
  match ← takeIf [close] with
  | some _ => return none
  | none =>
    let entry ← read
    skipComma
    return some entry

/-- A member of an object: its key, the colon and its value. -/
def pair (value : Reading Reason Json) : Reading Reason (String × Json) := do
  let key ← key
  skipGap
  expect .object .noColon [':']
  return (key, ← value)

theorem items_eq_many (value : Reading Reason Json) :
    items value = many .list (entryOrClose ']' value) := rfl

theorem members_eq_many (value : Reading Reason Json) :
    members value = many .object (entryOrClose '}' (pair value)) := by
  refine congrArg (many .object) ?_
  refine congrArg (skipGap >>= ·) (funext fun _ => congrArg (takeIf ['}'] >>= ·) (funext fun o => ?_))
  cases o with
  | some c => rfl
  | none => simp only [pair, bind_assoc, pure_bind]

theorem entryOrClose_of_close (hclose : BeginsToken close) (h : Begins [[close]] text rest) :
    entryOrClose close read text = .ok (none, rest) := by
  obtain ⟨mid, hgap, h⟩ := begins_cons_iff.1 h
  cases h
  have hskip : (skipGap : Reading Reason Unit) text = .ok ((), close :: rest) :=
    skipGap_cons hgap hclose
  have htake : (takeIf [close] : Reading Reason (Option Char)) (close :: rest) =
      .ok (some close, rest) := takeIf_of_mem (List.mem_singleton.2 rfl) _
  rw [entryOrClose, bind_of_ok hskip, bind_of_ok htake]
  rfl

theorem entryOrClose_of_read {behind : List Char} (hgap : Gap text mid)
    (hmid : ∀ c ∈ mid.head?, BeginsToken c ∧ c ≠ close) (hread : read mid = .ok (a, behind))
    (hcomma : (skipComma : Reading Reason Unit) behind = .ok ((), rest)) :
    entryOrClose close read text = .ok (some a, rest) := by
  have hskip : (skipGap : Reading Reason Unit) text = .ok ((), mid) :=
    skipGap_of_gap hgap fun c hc => (hmid c hc).1
  have htake : (takeIf [close] : Reading Reason (Option Char)) mid = .ok (none, mid) :=
    takeIf_of_not_mem fun c hc hmem => (hmid c hc).2 (List.mem_singleton.1 hmem)
  rw [entryOrClose, bind_of_ok hskip, bind_of_ok htake]
  dsimp only
  rw [bind_of_ok hread, bind_of_ok hcomma]
  rfl

theorem begins_of_close (h : entryOrClose close read text = .ok (none, rest)) :
    Begins [[close]] text rest := by
  rw [entryOrClose, bind_eq_ok_iff] at h
  obtain ⟨_, mid, hskip, h⟩ := h
  obtain ⟨o, behind, hclose, h⟩ := bind_eq_ok_iff.1 h
  obtain ⟨hgap, -⟩ := skipGap_eq_ok_iff.1 hskip
  obtain ⟨hmid, hallowed⟩ := takeIf_eq_ok hclose
  rw [hmid] at hgap
  cases o with
  | none =>
    obtain ⟨entry, last, -, h⟩ := bind_eq_ok_iff.1 h
    obtain ⟨_, _, -, h⟩ := bind_eq_ok_iff.1 h
    cases h
  | some c =>
    obtain ⟨-, rfl⟩ := pure_eq_ok_iff.1 h
    obtain rfl := List.mem_singleton.1 (hallowed c rfl)
    exact .cons hgap .nil

/-- A comma or nothing. -/
def IsOptionalComma (tokens : List (List Char)) : Prop := tokens = [] ∨ tokens = [[',']]

theorem begins_of_skipComma (h : (skipComma : Reading Reason Unit) text = .ok ((), rest)) :
    ∃ comma mid, IsOptionalComma comma ∧ Begins comma text mid ∧ Gap mid rest := by
  rw [skipComma, bind_eq_ok_iff] at h
  obtain ⟨_, mid, hskip, h⟩ := h
  obtain ⟨o, behind, hcomma, h⟩ := bind_eq_ok_iff.1 h
  obtain ⟨hgap, -⟩ := skipGap_eq_ok_iff.1 hskip
  obtain ⟨hmid, hallowed⟩ := takeIf_eq_ok hcomma
  obtain ⟨-, rfl⟩ := pure_eq_ok_iff.1 h
  rw [hmid] at hgap
  cases o with
  | none => exact ⟨[], text, .inl rfl, .nil, hgap⟩
  | some c =>
    obtain rfl := List.mem_singleton.1 (hallowed c rfl)
    exact ⟨[[',']], behind, .inr rfl, .cons hgap .nil, .nil⟩

/-- An entry is read behind a gap, with a comma or none behind it. -/
theorem exists_read_of_entry (h : entryOrClose close read text = .ok (some a, rest)) :
    ∃ mid behind comma last, Gap text mid ∧ read mid = .ok (a, behind) ∧ IsOptionalComma comma ∧
      Begins comma behind last ∧ Gap last rest := by
  rw [entryOrClose, bind_eq_ok_iff] at h
  obtain ⟨_, mid, hskip, h⟩ := h
  obtain ⟨o, _, hclose, h⟩ := bind_eq_ok_iff.1 h
  obtain ⟨hgap, -⟩ := skipGap_eq_ok_iff.1 hskip
  obtain ⟨hmid, -⟩ := takeIf_eq_ok hclose
  cases o with
  | some c => cases h
  | none =>
    obtain ⟨entry, behind, hread, h⟩ := bind_eq_ok_iff.1 h
    obtain ⟨_, _, hcomma, h⟩ := bind_eq_ok_iff.1 h
    obtain ⟨heq, rfl⟩ := pure_eq_ok_iff.1 h
    obtain rfl := Option.some.inj heq
    obtain ⟨comma, last, hoptional, hbegins, hlast⟩ := begins_of_skipComma hcomma
    rw [hmid] at hgap
    exact ⟨_, behind, comma, last, hgap, hread, hoptional, hbegins, hlast⟩

end Containers

end Json.Relaxed

end DocTree
