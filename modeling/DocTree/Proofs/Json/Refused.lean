import DocTree.Proofs.Json.Content

/-!
# What is refused first

A format within JSON is checked while it is read.  Where the text says a value, the reading comes to
an end of it or stops at an offence, and which of the two is told by the offences of the value, listed
in reading order (`Tells`): of several the first stops the reading, and without any nothing does.

`Judges value reading offences` says so of a reading for all texts in which a value stands.  Readings
of arrays and objects inherit it from the readings of items and members (`items_judges`,
`members_judges`); what is an offence at a member may depend on the members before it.
-/

namespace DocTree.Json

open Reading

variable {Reason α β σ : Type}

/-! ### Outcomes and offences -/

/-- The outcome of a reading is told by offences: the first one is refused, and if there is none then
the reading gives something and `rest` is left. -/
def Tells (outcome : Except (ReadError Reason) (α × List Char)) (rest : List Char) :
    List Reason → Prop
  | [] => ∃ a, outcome = .ok (a, rest)
  | first :: _ => outcome = .error (.refused first)

/-- The offences of a sequence are those of its first part and then those of the rest. -/
theorem Tells.bind {r : Reading Reason α} {f : α → Reading Reason β} {text mid rest : List Char}
    {before after : List Reason} (h : Tells (r text) mid before)
    (hf : ∀ a, r text = .ok (a, mid) → Tells (f a mid) rest after) :
    Tells ((r >>= f) text) rest (before ++ after) := by
  cases before with
  | nil =>
    obtain ⟨a, ha⟩ := h
    rw [bind_of_ok ha]
    exact hf a ha
  | cons first more => exact bind_of_error h f

theorem Tells.map {r : Reading Reason α} {f : α → β} {text rest : List Char} {offences : List Reason}
    (h : Tells (r text) rest offences) :
    Tells (((do return f (← r)) : Reading Reason β) text) rest offences := by
  rw [← List.append_nil offences]
  exact h.bind fun a _ => ⟨f a, rfl⟩

/-- Where a value stands in the text, the reading is told by the offences of the value. -/
def Judges (value : Reading Reason Json) (reading : Reading Reason α)
    (offences : Json → List Reason) : Prop :=
  ∀ text j rest, value text = .ok (j, rest) → Tells (reading text) rest (offences j)

/-! ### Items -/

variable {value : Reading Reason Json} {item : Reading Reason α} {offences : Json → List Reason}

theorem manyWithin_laterItem?_judges (h : Judges value item offences) (fuel : List Char) :
    ∀ (text : List Char) (js : List Json) (rest : List Char),
      manyWithin .list (laterItem? value) fuel text = .ok (js, rest) →
        Tells (manyWithin .list (laterItem? item) fuel text) rest (js.flatMap offences) := by
  induction fuel with
  | nil =>
    intro text js rest hrun
    cases hrun
  | cons c fuel ih =>
    intro text js rest hrun
    obtain ⟨hend, rfl⟩ | ⟨j, mid, later, hnext, hlater, rfl⟩ := manyWithin_cons_eq_ok_iff.1 hrun
    · have hclose : laterItem? item text = .ok (none, rest) := laterItem?_eq_ok_none_congr.1 hend
      exact ⟨[], manyWithin_cons_eq_ok_iff.2 (.inl ⟨hclose, rfl⟩)⟩
    · obtain ⟨start, hmore, hj⟩ := laterItem?_eq_ok_some_iff.1 hnext
      have hitem : Tells (laterItem? item text) mid (offences j) := by
        rw [laterItem?, bind_of_ok hmore]
        exact (h _ _ _ hj).map
      rw [List.flatMap_cons]
      refine hitem.bind fun o ho => ?_
      cases o with
      | none =>
        -- an item stands here, so the array does not close
        have hend := laterItem?_eq_ok_none_iff.1 ho
        rw [hmore] at hend
        cases hend
      | some a => exact (ih _ _ _ hlater).map

/-- The offences of an array are those of its items, in order. -/
theorem items_judges (h : Judges value item offences) {text rest : List Char} {js : List Json}
    (hrun : items value text = .ok (js, rest)) :
    Tells (items item text) rest (js.flatMap offences) := by
  obtain ⟨hnone, rfl⟩ | ⟨start, j, mid, later, hany, hj, hlater, rfl⟩ := items_eq_ok_iff.1 hrun
  · exact ⟨[], items_eq_ok_iff.2 (.inl ⟨hnone, rfl⟩)⟩
  · rw [items, bind_of_ok hany, List.flatMap_cons]
    refine (h _ _ _ hj).bind fun a _ => Tells.map ?_
    rw [many_apply]
    exact manyWithin_laterItem?_judges h _ _ _ _ hlater

/-! ### Members -/

/-- How a member is read once its key is decided on; a key may be refused. -/
def keyed (read : σ → String → Except Reason (Reading Reason σ)) (s : σ) (key : String) :
    Reading Reason σ :=
  match read s key with
  | .error reason => refuse reason
  | .ok r => r

/-- The offences of members, given the offences of one behind those before it. -/
def inTurn (offences : List (String × Json) → String → Json → List Reason)
    (before : List (String × Json)) : List (String × Json) → List Reason
  | [] => []
  | (key, j) :: later => offences before key j ++ inTurn offences (before ++ [(key, j)]) later

/-- What is wrong with members apart from the others is wrong with each by itself. -/
theorem inTurn_apart (offences : Json → List Reason) (before ms : List (String × Json)) :
    inTurn (fun _ _ j => offences j) before ms = ms.flatMap fun m => offences m.2 := by
  induction ms generalizing before with
  | nil => rfl
  | cons m later ih => rw [inTurn, ih, List.flatMap_cons]

/-- The offences of every member are there in one piece. -/
theorem infix_inTurn (offences : List (String × Json) → String → Json → List Reason)
    {key : String} {j : Json} {members : List (String × Json)} (h : (key, j) ∈ members) :
    ∀ before, ∃ between, offences between key j <:+: inTurn offences before members := by
  induction members with
  | nil => cases h
  | cons m later ih =>
    intro before
    obtain ⟨name, i⟩ := m
    rw [inTurn]
    rcases List.mem_cons.1 h with heq | hlater
    · cases heq
      exact ⟨before, (List.prefix_append _ _).isInfix⟩
    · obtain ⟨between, hbetween⟩ := ih hlater (before ++ [(name, i)])
      exact ⟨between, hbetween.trans (List.suffix_append _ _).isInfix⟩

/-- The reading of a member is told by the offences of it, if the members before it made the state
that it meets. -/
def MemberJudges (value : Reading Reason Json)
    (read : σ → String → Except Reason (Reading Reason σ)) (add : σ → String → Json → Option σ)
    (init : σ) (offences : List (String × Json) → String → Json → List Reason) : Prop :=
  ∀ before s, addAll add init before = some s → ∀ key text j rest, value text = .ok (j, rest) →
    Tells (keyed read s key text) rest (offences before key j)

section Members

variable {read : σ → String → Except Reason (Reading Reason σ)} {add : σ → String → Json → Option σ}
  {init : σ} {memberOffences : List (String × Json) → String → Json → List Reason}

/-- A key that is refused is refused before its colon. -/
theorem member_tells {s : σ} {key : String} {text mid rest : List Char} {list : List Reason}
    (hcolon : @colon Reason text = .ok ((), mid)) (h : Tells (keyed read s key mid) rest list) :
    Tells (member read s key text) rest list := by
  unfold keyed at h
  unfold member
  cases hread : read s key with
  | error reason =>
    rw [hread] at h
    exact h
  | ok r =>
    rw [hread] at h
    change Tells ((colon >>= fun _ => r) text) rest list
    rw [bind_of_ok hcolon]
    exact h

theorem addAll_concat_of_member (hd : MemberDecodes value read add) {before : List (String × Json)}
    {s s' : σ} {key : String} {j : Json} {text start rest : List Char}
    (hs : addAll add init before = some s) (hcolon : @colon Reason text = .ok ((), start))
    (hj : value start = .ok (j, rest)) (hmember : member read s key text = .ok (s', rest)) :
    addAll add init (before ++ [(key, j)]) = some s' := by
  obtain ⟨start', j', hcolon', hj', hadd⟩ := (member_eq_ok_iff hd).1 hmember
  rw [hcolon] at hcolon'
  cases hcolon'
  rw [hj] at hj'
  cases hj'
  rw [addAll_append_singleton, hs]
  exact hadd

-- The induction is on the fuel; what the members before have made of the state is carried along, since
-- the offences of a member depend on them.
theorem iterateWithin_laterMember?_judges (hd : MemberDecodes value read add)
    (h : MemberJudges value read add init memberOffences) (fuel : List Char) :
    ∀ (text rest : List Char) (before ms : List (String × Json)) (s : σ),
      addAll add init before = some s →
      manyWithin .object (laterPair? value) fuel text = .ok (ms, rest) →
      Tells (iterateWithin .object (laterMember? read) fuel s text) rest
        (inTurn memberOffences before ms) := by
  induction fuel with
  | nil =>
    intro text rest before ms s _ hrun
    cases hrun
  | cons c fuel ih =>
    intro text rest before ms s hs hrun
    obtain ⟨hend, rfl⟩ | ⟨⟨key, j⟩, mid, later, hpair, hlater, rfl⟩ :=
      manyWithin_cons_eq_ok_iff.1 hrun
    · have hclose : laterMember? read s text = .ok (none, rest) :=
        laterMember?_eq_ok_none_iff_laterPair?.2 hend
      exact ⟨s, iterateWithin_cons_eq_ok_iff.2 (.inl ⟨hclose, rfl⟩)⟩
    · obtain ⟨colonAt, start, hkey, hcolon, hj⟩ := laterPair?_eq_ok_some_iff.1 hpair
      have hmember := member_tells hcolon (h before s hs key start j mid hj)
      have hstep : Tells (laterMember? read s text) mid (memberOffences before key j) := by
        rw [laterMember?, bind_of_ok hkey]
        exact hmember.map
      refine hstep.bind fun o ho => ?_
      rw [laterMember?, bind_of_ok hkey] at ho
      cases o with
      | none => exact absurd ho (map_ne_ok (by simp))
      | some s' =>
        have hmade := (map_eq_ok_iff (by rintro _ _ ⟨⟩; rfl)).1 ho
        exact ih _ _ _ _ _ (addAll_concat_of_member hd hs hcolon hj hmade) hlater

/-- The offences of an object are those of its members, in order. -/
theorem members_judges (hd : MemberDecodes value read add)
    (h : MemberJudges value read add init memberOffences) {text rest : List Char}
    {ms : List (String × Json)} (hrun : members (collect value) [] text = .ok (ms, rest)) :
    Tells (members read init text) rest (inTurn memberOffences [] ms) := by
  obtain ⟨hnone, rfl⟩ | ⟨key, behind, start, j, mid, later, hkey, hcolon, hj, hlater, rfl⟩ :=
    pairs_eq_ok_iff.1 ((members_collect _ _ _ _).1 hrun)
  · exact ⟨init, members_eq_ok_iff_rounds.2 (.inl ⟨hnone, rfl⟩)⟩
  · have hfirst : addAll add init [] = some init := rfl
    rw [members, bind_of_ok hkey]
    refine (member_tells hcolon (h [] init hfirst key start j mid hj)).bind fun s hs => ?_
    have hmade := addAll_concat_of_member hd hfirst hcolon hj hs
    exact iterateWithin_laterMember?_judges hd h _ _ _ _ _ _ hmade hlater

end Members

/-! ### Whole texts -/

/-- A whole text that says a value is refused for the first of the offences, if there is one. -/
theorem readAll_eq_of_judges {reading : Reading Reason α} (h : Judges value reading offences)
    {text : String} {j : Json} (hj : readAll value text = .ok j) :
    (offences j = [] → ∃ a, readAll reading text = .ok a) ∧
      ∀ first later, offences j = first :: later →
        readAll reading text = .error (.refused first) := by
  obtain ⟨rest, hvalue, hblank⟩ := readAll_eq_ok_iff.1 hj
  have htells := h _ _ _ hvalue
  refine ⟨fun hnone => ?_, fun first later hsome => ?_⟩
  · rw [hnone] at htells
    obtain ⟨a, ha⟩ := htells
    exact ⟨a, readAll_eq_ok_iff.2 ⟨rest, ha, hblank⟩⟩
  · rw [hsome] at htells
    have hrun : reading text.toList = .error (.refused first) := htells
    rw [readAll, Reading.run, bind_of_error hrun]
    rfl

end DocTree.Json
