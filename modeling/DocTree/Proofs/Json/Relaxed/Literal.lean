import DocTree.Proofs.Json.Relaxed.Token

/-!
# Values of relaxed JSON as they are written

A text says a value, but not every value is written in one way: a string may stand between quotes or be
the text of a number that is too large.  A `Literal` keeps what is written apart, `Tokens` is the grammar
that says of which tokens it consists, and a text that is read is one of this grammar
(`exists_isValueOf`).  The grammar follows the reader: one case for each kind of value, and one for an
item or a member before the closing bracket.
-/

namespace DocTree.Json.Relaxed

open Reading

variable {Reason : Type}

/-! ### Values -/

/-- A value as it is written: with its numbers, of which some are too large for JSON. -/
inductive Literal where
  | null
  | bool (b : Bool)
  | string (s : String)
  | number (n : Number)
  | array (items : List Literal)
  | object (members : List (String × Literal))

namespace Literal

mutual

/-- The value that is written.  A number that is too large is the string of its text. -/
def toJson : Literal → Json
  | null => .null
  | bool b => .bool b
  | string s => .string s
  | number n => n.toJson?.getD (.string (String.ofList n.write))
  | array items => .array (itemsToJson items)
  | object members => .object (membersToJson members)

/-- The values of the items of an array. -/
def itemsToJson : List Literal → List Json
  | [] => []
  | item :: rest => item.toJson :: itemsToJson rest

/-- The members of an object with their values. -/
def membersToJson : List (String × Literal) → List (String × Json)
  | [] => []
  | (key, value) :: rest => (key, value.toJson) :: membersToJson rest

end

theorem itemsToJson_eq_map (items : List Literal) : itemsToJson items = items.map toJson := by
  induction items with
  | nil => rfl
  | cons item rest ih => rw [itemsToJson, ih, List.map_cons]

theorem membersToJson_eq_map (members : List (String × Literal)) :
    membersToJson members = members.map fun m => (m.1, m.2.toJson) := by
  induction members with
  | nil => rfl
  | cons m rest ih => rw [membersToJson, ih, List.map_cons]

/-- A number that the reader of numbers refuses, since it is too large. -/
def IsRefused (l : Literal) : Prop := ∃ n : Number, l = .number n ∧ n.toJson? = none

theorem isScalar_number (n : Number) : (number n).toJson.isScalar = true := by
  rw [toJson]
  cases hn : n.toJson? with
  | none => rfl
  | some j => exact (Number.isNumber_of_toJson? hn).isScalar

end Literal

mutual

/-- The tokens that a value is written with. -/
inductive Tokens : Literal → List (List Char) → Prop
  | null : Tokens .null ["null".toList]
  | true : Tokens (.bool true) ["true".toList]
  | false : Tokens (.bool false) ["false".toList]
  | string {s : String} {token : List Char} (h : IsStringToken s token) :
    Tokens (.string s) [token]
  | number {n : Number} (h : n.Valid) : Tokens (.number n) [n.write]
  | array {items : List Literal} {tokens : List (List Char)} (h : ItemTokens items tokens) :
    Tokens (.array items) (['['] :: tokens)
  | object {members : List (String × Literal)} {tokens : List (List Char)}
    (h : MemberTokens members tokens) : Tokens (.object members) (['{'] :: tokens)

/-- The tokens of the items of an array and of its closing bracket. -/
inductive ItemTokens : List Literal → List (List Char) → Prop
  | close : ItemTokens [] [[']']]
  | item {item : Literal} {rest : List Literal} {tokens comma more : List (List Char)}
    (hitem : Tokens item tokens) (hcomma : IsOptionalComma comma) (h : ItemTokens rest more) :
    ItemTokens (item :: rest) (tokens ++ (comma ++ more))

/-- The tokens of the members of an object and of its closing bracket. -/
inductive MemberTokens : List (String × Literal) → List (List Char) → Prop
  | close : MemberTokens [] [['}']]
  | member {key : String} {value : Literal} {rest : List (String × Literal)} {token : List Char}
    {tokens comma more : List (List Char)} (hkey : IsKeyToken key token)
    (hvalue : Tokens value tokens) (hcomma : IsOptionalComma comma) (h : MemberTokens rest more) :
    MemberTokens ((key, value) :: rest) (token :: [':'] :: (tokens ++ (comma ++ more)))

end

/-- What the reading gives is written in front of the text. -/
def Sound (value : Reading Reason Json) : Prop :=
  ∀ {text rest : List Char} {j : Json}, value text = .ok (j, rest) →
    ∃ l tokens, Tokens l tokens ∧ l.toJson = j ∧ Begins tokens text rest

theorem Tokens.ne_nil {l : Literal} {tokens : List (List Char)} (h : Tokens l tokens) :
    tokens ≠ [] := by
  cases h <;> exact List.cons_ne_nil _ _

theorem ItemTokens.ne_nil {items : List Literal} {tokens : List (List Char)} :
    ItemTokens items tokens → tokens ≠ []
  | .close => List.cons_ne_nil _ _
  | .item _ _ h => List.append_ne_nil_of_right_ne_nil _
      (List.append_ne_nil_of_right_ne_nil _ h.ne_nil)

theorem MemberTokens.ne_nil {members : List (String × Literal)} {tokens : List (List Char)}
    (h : MemberTokens members tokens) : tokens ≠ [] := by
  cases h <;> exact List.cons_ne_nil _ _

section Containers

variable {value : Reading Reason Json}

theorem manyWithin_items_eq_ok (hvalue : Sound value) {fuel text rest : List Char} {js : List Json}
    (h : manyWithin .list (entryOrClose ']' value) fuel text = .ok (js, rest)) :
    ∃ items tokens, ItemTokens items tokens ∧ Literal.itemsToJson items = js ∧
      Begins tokens text rest := by
  induction fuel generalizing text js with
  | nil => cases h
  | cons _ fuel ih =>
    obtain ⟨hclose, rfl⟩ | ⟨j, behind, later, hentry, hmore, rfl⟩ := manyWithin_cons_eq_ok_iff.1 h
    · exact ⟨[], _, .close, rfl, begins_of_close hclose⟩
    · obtain ⟨mid, afterItem, comma, afterComma, hgap, hitem, hcomma, hbegins, hbehind⟩ :=
        exists_read_of_entry hentry
      obtain ⟨l, tokens, hl, rfl, hvalue⟩ := hvalue hitem
      obtain ⟨items, more, hitems, rfl, hrest⟩ := ih hmore
      exact ⟨l :: items, tokens ++ (comma ++ more), .item hl hcomma hitems, rfl,
        (hvalue.of_gap hl.ne_nil hgap).append (hbegins.append (hrest.of_gap hitems.ne_nil hbehind))⟩

theorem pair_eq_ok (hvalue : Sound value) {text rest : List Char} {key : String} {j : Json}
    (h : pair value text = .ok ((key, j), rest)) :
    ∃ token l tokens, IsKeyToken key token ∧ Tokens l tokens ∧ l.toJson = j ∧
      Begins (token :: [':'] :: tokens) text rest := by
  rw [pair, bind_eq_ok_iff] at h
  obtain ⟨name, behindKey, hkey, h⟩ := h
  obtain ⟨_, beforeColon, hskip, h⟩ := bind_eq_ok_iff.1 h
  obtain ⟨_, behindColon, hcolon, h⟩ := bind_eq_ok_iff.1 h
  obtain ⟨item, last, hitem, h⟩ := bind_eq_ok_iff.1 h
  obtain ⟨heq, rfl⟩ := pure_eq_ok_iff.1 h
  cases heq
  obtain ⟨token, htoken, rfl⟩ := key_eq_ok hkey
  obtain ⟨hgap, -⟩ := skipGap_eq_ok_iff.1 hskip
  rw [expect_eq_ok hcolon] at hgap
  obtain ⟨l, tokens, hl, rfl, hbegins⟩ := hvalue hitem
  exact ⟨token, l, tokens, htoken, hl, rfl, .cons .nil (.cons hgap hbegins)⟩

theorem manyWithin_members_eq_ok (hvalue : Sound value) {fuel text rest : List Char}
    {ms : List (String × Json)}
    (h : manyWithin .object (entryOrClose '}' (pair value)) fuel text = .ok (ms, rest)) :
    ∃ members tokens, MemberTokens members tokens ∧ Literal.membersToJson members = ms ∧
      Begins tokens text rest := by
  induction fuel generalizing text ms with
  | nil => cases h
  | cons _ fuel ih =>
    obtain ⟨hclose, rfl⟩ | ⟨⟨key, j⟩, behind, later, hentry, hmore, rfl⟩ :=
      manyWithin_cons_eq_ok_iff.1 h
    · exact ⟨[], _, .close, rfl, begins_of_close hclose⟩
    · obtain ⟨mid, afterMember, comma, afterComma, hgap, hmember, hcomma, hbegins, hbehind⟩ :=
        exists_read_of_entry hentry
      obtain ⟨token, l, tokens, hkey, hl, rfl, hpair⟩ := pair_eq_ok hvalue hmember
      obtain ⟨members, more, hmembers, rfl, hrest⟩ := ih hmore
      exact ⟨(key, l) :: members, _, .member hkey hl hcomma hmembers, rfl,
        (hpair.of_gap (List.cons_ne_nil _ _) hgap).append
          (hbegins.append (hrest.of_gap hmembers.ne_nil hbehind))⟩

end Containers

theorem tokens_of_mem_wordValues {word : String} {j : Json} (h : (word, j) ∈ wordValues) :
    ∃ l, Tokens l [word.toList] ∧ l.toJson = j := by
  simp only [wordValues, List.mem_cons, List.not_mem_nil, or_false, Prod.mk.injEq] at h
  rcases h with ⟨rfl, rfl⟩ | ⟨rfl, rfl⟩ | ⟨rfl, rfl⟩
  · exact ⟨_, .true, rfl⟩
  · exact ⟨_, .false, rfl⟩
  · exact ⟨_, .null, rfl⟩

/-- Every value that is read is written in the text. -/
theorem sound_value (fuel : List Char) : Sound (value fuel : Reading Reason Json) := by
  -- the bound on the levels is one shorter inside of a container
  induction fuel with
  | nil =>
    intro text rest j h
    cases h
  | cons _ deeper ih =>
    intro text rest j h
    rw [value, bind_eq_ok_iff] at h
    obtain ⟨_, mid, hskip, h⟩ := h
    obtain ⟨o, behind, hpeek, h⟩ := bind_eq_ok_iff.1 h
    obtain ⟨hgap, -⟩ := skipGap_eq_ok_iff.1 hskip
    obtain ⟨ho, rfl⟩ := peek_eq_ok_iff.1 hpeek
    split at h
    case h_1 => cases h
    case h_2 | h_3 =>
      obtain ⟨c, behind, hnext, h⟩ := bind_eq_ok_iff.1 h
      obtain ⟨s, last, hrest, h⟩ := bind_eq_ok_iff.1 h
      obtain ⟨rfl, rfl⟩ := pure_eq_ok_iff.1 h
      obtain ⟨token, htoken, heq⟩ := isStringToken_of_stringRest (by decide) hrest
      rw [eq_cons_of_next hnext ho, heq] at hgap
      exact ⟨.string s, [token], .string htoken, rfl, .cons hgap .nil⟩
    case h_4 =>
      obtain ⟨c, behind, hnext, h⟩ := bind_eq_ok_iff.1 h
      obtain ⟨js, last, hitems, h⟩ := bind_eq_ok_iff.1 h
      obtain ⟨rfl, rfl⟩ := pure_eq_ok_iff.1 h
      rw [items_eq_many, many_apply] at hitems
      obtain ⟨items, tokens, htokens, rfl, hbegins⟩ := manyWithin_items_eq_ok ih hitems
      rw [eq_cons_of_next hnext ho] at hgap
      exact ⟨.array items, ['['] :: tokens, .array htokens, rfl, .cons hgap hbegins⟩
    case h_5 =>
      obtain ⟨c, behind, hnext, h⟩ := bind_eq_ok_iff.1 h
      obtain ⟨ms, last, hmembers, h⟩ := bind_eq_ok_iff.1 h
      obtain ⟨rfl, rfl⟩ := pure_eq_ok_iff.1 h
      rw [members_eq_many, many_apply] at hmembers
      obtain ⟨members, tokens, htokens, rfl, hbegins⟩ := manyWithin_members_eq_ok ih hmembers
      rw [eq_cons_of_next hnext ho] at hgap
      exact ⟨.object members, ['{'] :: tokens, .object htokens, rfl, .cons hgap hbegins⟩
    case h_6 =>
      split at h
      · obtain ⟨⟨o, s⟩, last, hnumber, h⟩ := bind_eq_ok_iff.1 h
        obtain ⟨rfl, rfl⟩ := pure_eq_ok_iff.1 h
        obtain ⟨n, hvalid, rfl, rfl, rfl⟩ := number_eq_ok hnumber
        exact ⟨.number n, [n.write], .number hvalid, rfl, .cons hgap .nil⟩
      · obtain ⟨word, hword, rfl⟩ := wordValue_eq_ok h
        obtain ⟨l, htokens, rfl⟩ := tokens_of_mem_wordValues hword
        exact ⟨l, [word.toList], htokens, rfl, .cons hgap .nil⟩

/-! ### Whole texts -/

/-- The value of the text, and how it is written there. -/
structure Literal.IsValueOf (l : Literal) (text : String) : Prop where
  read : parse text = .ok (some l.toJson)
  written : ∃ tokens, Tokens l tokens ∧ Spaced tokens text.toList

/-- A text without a value is a gap. -/
theorem parse_eq_ok_none_iff {text : String} : parse text = .ok none ↔ Gap text.toList [] := by
  rw [parse, run_eq_ok_iff]
  constructor
  · intro h
    obtain ⟨_, mid, hskip, h⟩ := bind_eq_ok_iff.1 h
    obtain ⟨o, behind, hpeek, h⟩ := bind_eq_ok_iff.1 h
    obtain ⟨hgap, -⟩ := skipGap_eq_ok_iff.1 hskip
    obtain ⟨-, rfl⟩ := peek_eq_ok_iff.1 hpeek
    cases o with
    | none =>
      obtain ⟨-, rfl⟩ := pure_eq_ok_iff.1 h
      exact hgap
    | some c =>
      obtain ⟨j, last, -, h⟩ := bind_eq_ok_iff.1 h
      exact absurd h (map_ne_ok nofun)
  · intro h
    rw [bind_of_ok (skipGap_of_gap h nofun)]
    rfl

/-- A value that is read is written in the text. -/
theorem exists_isValueOf {text : String} {j : Json} (h : parse text = .ok (some j)) :
    ∃ l : Literal, l.IsValueOf text ∧ l.toJson = j := by
  have hread := h
  rw [parse, run_eq_ok_iff, bind_eq_ok_iff] at h
  obtain ⟨_, mid, hskip, h⟩ := h
  obtain ⟨o, behind, hpeek, h⟩ := bind_eq_ok_iff.1 h
  obtain ⟨hgap, -⟩ := skipGap_eq_ok_iff.1 hskip
  obtain ⟨-, rfl⟩ := peek_eq_ok_iff.1 hpeek
  cases o with
  | none => cases h
  | some c =>
    obtain ⟨value, last, hvalue, h⟩ := bind_eq_ok_iff.1 h
    obtain ⟨_, rest, hlast, h⟩ := bind_eq_ok_iff.1 h
    obtain ⟨heq, rfl⟩ := pure_eq_ok_iff.1 h
    obtain rfl := Option.some.inj heq
    obtain ⟨l, tokens, htokens, rfl, hbegins⟩ := sound_value _ hvalue
    have hspaced : Spaced tokens text.toList :=
      ⟨last, hbegins.of_gap htokens.ne_nil hgap, (skipGap_eq_ok_iff.1 hlast).1⟩
    exact ⟨l, ⟨hread, tokens, htokens, hspaced⟩, rfl⟩

end DocTree.Json.Relaxed
