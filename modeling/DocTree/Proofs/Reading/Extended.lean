import DocTree.Proofs.Reading

/-!
# Readings of longer texts

A text is read from left to right, so what a reading gives of a text it also gives of the text with
more behind it, as long as it did not come to the end (`Reading.Lasting`).  There are two ways to come
to the end.  An error may say that the text ended too early (`ReadError.EndsEarly`), and then nothing
is known of a longer text.  Or a reading may use up the text where more of it could have been taken, as
with the digits of a number; then what comes behind has to stand apart from it.

Sequences and repetitions of such readings are such readings again.  One that looks for the next
character behind some others to skip is such a reading as long as it needs one
(`lasting_skipWhile_next`, `lasting_skipWhile_peek`), and one that ends with a closing mark does not
care what comes behind (`Closes`).
-/

namespace DocTree

variable {Reason α β σ : Type}

/-- The text ended before what was to be read did. -/
def ReadError.EndsEarly : ReadError Reason → Prop
  | unreadable (.endsIn _) => True
  | _ => False

namespace Reading

/-- On a text with more behind it, `longer` gives what `r` gives on the text alone, unless that ends too
early.  Where `r` uses up the text, what is behind has to stand apart. -/
structure Extends (Apart : List Char → Prop) (r longer : Reading Reason α) : Prop where
  ok : ∀ {text rest more a}, r text = .ok (a, rest) → (rest = [] → Apart more) →
    longer (text ++ more) = .ok (a, rest ++ more)
  error : ∀ {text more e}, r text = .error e → ¬ e.EndsEarly → Apart more →
    longer (text ++ more) = .error e
  nil : ∀ {a rest}, r [] = .ok (a, rest) → rest = []

/-- What the reading gives of a text lasts when there is more behind the text. -/
abbrev Lasting (Apart : List Char → Prop) (r : Reading Reason α) : Prop := Extends Apart r r

/-- The reading gives nothing of a text that is used up. -/
def NeedsText (r : Reading Reason α) : Prop :=
  ∃ what, r [] = .error (.unreadable (.endsIn what))

variable {Apart : List Char → Prop} {r : Reading Reason α} {f : α → Reading Reason β}

theorem NeedsText.ne_ok (h : NeedsText r) {a : α} {rest : List Char} : r [] ≠ .ok (a, rest) := by
  obtain ⟨what, hwhat⟩ := h
  rw [hwhat]
  rintro ⟨⟩

theorem NeedsText.bind (h : NeedsText r) : NeedsText (r >>= f) := by
  obtain ⟨what, hwhat⟩ := h
  exact ⟨what, bind_of_error hwhat f⟩

/-! ### Steps -/

theorem lasting_pure (a : α) : Lasting Apart (pure a : Reading Reason α) where
  ok h _ := by
    obtain ⟨rfl, rfl⟩ := pure_eq_ok_iff.1 h
    rfl
  error h := nomatch h
  nil h := (pure_eq_ok_iff.1 h).2.symm

theorem lasting_fail (fault : TextFault) : Lasting Apart (fail fault : Reading Reason α) where
  ok h := nomatch h
  error h _ _ := h
  nil h := nomatch h

theorem lasting_reject (how : Malformation) : Lasting Apart (reject how : Reading Reason α) :=
  lasting_fail _

theorem lasting_refuse (reason : Reason) : Lasting Apart (refuse reason : Reading Reason α) where
  ok h := nomatch h
  error h _ _ := h
  nil h := nomatch h

theorem lasting_next (inside : Unfinished) : Lasting Apart (next inside : Reading Reason Char) where
  ok h _ := by
    rw [next_eq_ok_iff.1 h]
    rfl
  error {text _ _} h hearly _ := by
    cases text with
    | nil =>
      cases h
      exact absurd trivial hearly
    | cons c text => cases h
  nil h := nomatch h

theorem Extends.bind {longer : Reading Reason α} {g : α → Reading Reason β}
    (h : Extends Apart r longer) (hf : ∀ a, Extends Apart (f a) (g a)) :
    Extends Apart (r >>= f) (longer >>= g) where
  ok {text rest more b} hrun hrest := by
    obtain ⟨a, mid, ha, hb⟩ := bind_eq_ok_iff.1 hrun
    -- if the first part uses up the text, the second one has nothing to take
    have hmid : mid = [] → Apart more := by
      rintro rfl
      exact hrest ((hf a).nil hb)
    rw [bind_of_ok (h.ok ha hmid)]
    exact (hf a).ok hb hrest
  error {text more e} hrun hearly hmore := by
    cases hr : r text with
    | error e' =>
      rw [bind_of_error hr] at hrun
      cases hrun
      exact bind_of_error (h.error hr hearly hmore) g
    | ok result =>
      obtain ⟨a, mid⟩ := result
      rw [bind_of_ok hr] at hrun
      rw [bind_of_ok (h.ok hr fun _ => hmore)]
      exact (hf a).error hrun hearly hmore
  nil hrun := by
    obtain ⟨a, mid, ha, hb⟩ := bind_eq_ok_iff.1 hrun
    obtain rfl := h.nil ha
    exact (hf a).nil hb

theorem lasting_expect (inside : Unfinished) (how : Malformation) (word : List Char) :
    Lasting Apart (expect inside how word : Reading Reason Unit) := by
  induction word with
  | nil => exact lasting_pure ()
  | cons c word ih =>
    refine (lasting_next inside).bind fun d => ?_
    split
    · exact ih
    · exact lasting_reject how

/-! ### Looking ahead -/

/-- What is looked at decides the rest, with more behind the text as without. -/
theorem bind_of_look {look : Reading Reason α} {text mid : List Char} {a : α}
    (hlook : ∀ more, look (text ++ more) = .ok (a, mid ++ more)) :
    (look >>= f) text = f a mid ∧ ∀ more, (look >>= f) (text ++ more) = f a (mid ++ more) := by
  have halone := hlook []
  rw [List.append_nil, List.append_nil] at halone
  exact ⟨bind_of_ok halone f, fun more => bind_of_ok (hlook more) f⟩

/-- A sequence lasts although its first part may see the end of the text: it needs more text then, and
if it does not, the first part gives the same whatever is behind. -/
theorem lasting_ahead {look : Reading Reason α} (hnil : NeedsText (look >>= f))
    (h : ∀ text, (∃ what, (look >>= f) text = .error (.unreadable (.endsIn what))) ∨
      ∃ a mid, Lasting Apart (f a) ∧ ∀ more, look (text ++ more) = .ok (a, mid ++ more)) :
    Lasting Apart (look >>= f) where
  ok {text rest more b} hrun hrest := by
    rcases h text with ⟨what, hwhat⟩ | ⟨a, mid, hf, hlook⟩
    · rw [hwhat] at hrun
      cases hrun
    · obtain ⟨halone, hlonger⟩ := bind_of_look hlook
      rw [halone] at hrun
      rw [hlonger]
      exact hf.ok hrun hrest
  error {text more e} hrun hearly hmore := by
    rcases h text with ⟨what, hwhat⟩ | ⟨a, mid, hf, hlook⟩
    · rw [hwhat] at hrun
      cases hrun
      exact absurd trivial hearly
    · obtain ⟨halone, hlonger⟩ := bind_of_look hlook
      rw [halone] at hrun
      rw [hlonger]
      exact hf.error hrun hearly hmore
  nil hrun := absurd hrun hnil.ne_ok

section Ahead

variable {p : Char → Bool} {allowed : List Char}

/-- A run of characters lasts if the text does not go on with one of them. -/
theorem lasting_takeWhile (h : ∀ more, Apart more → ∀ c ∈ more.head?, p c = false) :
    Lasting Apart (takeWhile p : Reading Reason (List Char)) where
  ok {text rest more run} hrun hrest := by
    cases hrun
    have hall : ∀ c ∈ text.takeWhile p, p c = true := List.all_eq_true.1 List.all_takeWhile
    have hhead : ∀ c ∈ (text.dropWhile p ++ more).head?, p c = false := by
      cases hdrop : text.dropWhile p with
      | nil => exact h more (hrest hdrop)
      | cons c left =>
        have hne : text.dropWhile p ≠ [] := by simp [hdrop]
        have hhead := List.head_dropWhile_not p hne
        rintro d ⟨⟩
        simpa [hdrop] using hhead
    have htake := @takeWhile_append Reason p _ _ hall hhead
    rwa [← List.append_assoc, List.takeWhile_append_dropWhile] at htake
  error hrun := nomatch hrun
  nil hrun := by
    cases hrun
    rfl

/-- A character that may stand where the text ends lasts if the text does not go on with it. -/
theorem lasting_takeIf (h : ∀ more, Apart more → ∀ c ∈ more.head?, c ∉ allowed) :
    Lasting Apart (takeIf allowed : Reading Reason (Option Char)) where
  ok {text rest more found} hrun hrest := by
    cases text with
    | nil =>
      cases hrun
      exact takeIf_of_not_mem (h more (hrest rfl))
    | cons c text =>
      by_cases hc : c ∈ allowed
      · rw [takeIf_of_mem hc] at hrun
        cases hrun
        exact takeIf_of_mem hc _
      · rw [takeIf_of_not_mem (by rintro d ⟨⟩; exact hc)] at hrun
        cases hrun
        exact takeIf_of_not_mem (by rintro d ⟨⟩; exact hc)
  error {text _ _} hrun := by
    cases text with
    | nil => cases hrun
    | cons c text => by_cases hc : c ∈ allowed <;> simp [takeIf, hc] at hrun
  nil hrun := by
    cases hrun
    rfl

/-- Where more text is needed anyway, the text may go on with such a character. -/
theorem lasting_takeIf_bind {f : Option Char → Reading Reason β}
    (hf : ∀ found, Lasting Apart (f found)) (hnone : NeedsText (f none)) :
    Lasting Apart (takeIf allowed >>= f) := by
  refine lasting_ahead hnone fun text => ?_
  cases text with
  | nil => exact .inl hnone
  | cons c text =>
    by_cases hc : c ∈ allowed
    · exact .inr ⟨some c, text, hf _, fun more => takeIf_of_mem hc _⟩
    · exact .inr ⟨none, c :: text, hf _, fun more =>
        takeIf_of_not_mem (by rintro d ⟨⟩; exact hc)⟩

/-- A check of the next character, which stays, lasts if what may come behind passes it where the end of
the text does. -/
theorem lasting_check {bad : Option Char → Prop} [DecidablePred bad]
    (h : ∀ more, Apart more → (bad more.head? ↔ bad none)) (how : Malformation) (a : α) :
    Lasting Apart (do if bad (← peek) then reject how else return a : Reading Reason α) := by
  have hrun : ∀ text, (do if bad (← peek) then reject how else return a : Reading Reason α) text =
      if bad text.head? then .error (.unreadable (.malformed how)) else .ok (a, text) := by
    intro text
    rw [bind_of_ok (rfl : peek text = .ok (text.head?, text))]
    split <;> rfl
  have hhead : ∀ text more, (text = [] → Apart more) →
      (bad (text ++ more).head? ↔ bad text.head?) := by
    intro text more hmore
    cases text with
    | nil => exact h more (hmore rfl)
    | cons c text => exact Iff.rfl
  refine ⟨fun {text rest more _} hread hrest => ?_, fun {text more _} hread _ hmore => ?_,
    fun hread => ?_⟩
  · rw [hrun] at hread ⊢
    split at hread
    · cases hread
    next hgood =>
      cases hread
      exact if_neg (mt (hhead text more hrest).1 hgood)
  · rw [hrun] at hread ⊢
    split at hread
    next hbad =>
      cases hread
      exact if_pos ((hhead text more fun _ => hmore).2 hbad)
    · cases hread
  · rw [hrun] at hread
    split at hread <;> cases hread
    rfl

/-- The next character behind those that are skipped, if another follows. -/
theorem lasting_skipWhile_next {inside : Unfinished} {f : Char → Reading Reason β}
    (hf : ∀ c, Lasting Apart (f c)) :
    Lasting Apart (do skipWhile p; f (← next inside)) := by
  refine lasting_ahead ⟨inside, rfl⟩ fun text => ?_
  cases hdrop : text.dropWhile p with
  | nil =>
    refine .inl ⟨inside, ?_⟩
    have hskip : (skipWhile p : Reading Reason Unit) text = .ok ((), []) := by
      rw [skipWhile, hdrop]
    rw [bind_of_ok hskip]
    exact bind_of_error rfl f
  | cons c left =>
    refine .inr ⟨(), c :: left, (lasting_next inside).bind hf, fun more => ?_⟩
    rw [skipWhile, List.dropWhile_append, hdrop]
    rfl

/-- A look at the next character behind those that are skipped, if there must be one. -/
theorem lasting_skipWhile_peek {f : Option Char → Reading Reason β}
    (hf : ∀ c, Lasting Apart (f (some c))) (hnone : NeedsText (f none)) :
    Lasting Apart (do skipWhile p; f (← peek)) := by
  have hlook : ∀ text, ((do skipWhile p; peek) : Reading Reason (Option Char)) text =
      .ok ((text.dropWhile p).head?, text.dropWhile p) := fun _ => rfl
  have hassoc : ((do skipWhile p; f (← peek)) : Reading Reason β) =
      (do skipWhile p; peek) >>= f := (bind_assoc ..).symm
  rw [hassoc]
  refine lasting_ahead hnone fun text => ?_
  cases hdrop : text.dropWhile p with
  | nil =>
    obtain ⟨what, hwhat⟩ := hnone
    refine .inl ⟨what, ?_⟩
    rw [bind_of_ok (hlook text), hdrop]
    exact hwhat
  | cons c left =>
    refine .inr ⟨some c, c :: left, hf c, fun more => ?_⟩
    rw [hlook, List.dropWhile_append, hdrop]
    rfl

end Ahead

/-! ### Repetitions -/

section Repetition

variable {inside : Unfinished} {step : σ → Reading Reason (Option σ)}

/-- With more rounds to go than characters, nothing changes. -/
theorem extends_iterateWithin (h : ∀ s, Lasting Apart (step s)) (fuel later : List Char) (s : σ) :
    Extends Apart (iterateWithin inside step fuel s) (iterateWithin inside step (fuel ++ later) s) := by
  induction fuel generalizing s with
  | nil =>
    refine ⟨fun hrun => (nomatch hrun), fun hrun hearly => ?_, fun hrun => nomatch hrun⟩
    cases hrun
    exact absurd trivial hearly
  | cons c fuel ih =>
    refine (h s).bind fun next => ?_
    cases next with
    | none => exact lasting_pure s
    | some s' => exact ih s'

theorem lasting_iterate (h : ∀ s, Lasting Apart (step s)) (s : σ) :
    Lasting Apart (iterate inside step s) where
  ok {text _ more _} hrun hrest := (extends_iterateWithin h text more s).ok hrun hrest
  error {text more _} hrun hearly hmore :=
    (extends_iterateWithin h text more s).error hrun hearly hmore
  nil hrun := nomatch hrun

theorem lasting_many {step : Reading Reason (Option α)} (h : Lasting Apart step) :
    Lasting Apart (many inside step) := by
  refine (lasting_iterate (fun found => ?_) []).bind fun collected => lasting_pure _
  exact h.bind fun found => lasting_pure _

end Repetition

/-! ### Closing marks -/

/-- Where the reading gives `a`, it has come to a closing mark, so it gives the same whatever is
behind. -/
def ClosesWith (r : Reading Reason α) (a : α) : Prop :=
  ∀ ⦃text rest : List Char⦄, r text = .ok (a, rest) → ∀ more, r (text ++ more) = .ok (a, rest ++ more)

/-- The reading ends with a closing mark, whatever it gives. -/
def Closes (r : Reading Reason α) : Prop := ∀ a, r.ClosesWith a

theorem closes_pure (a : α) : Closes (pure a : Reading Reason α) := by
  intro b text rest h more
  obtain ⟨rfl, rfl⟩ := pure_eq_ok_iff.1 h
  rfl

theorem closesWith_of_ne_ok {a : α} (h : ∀ text rest, r text ≠ .ok (a, rest)) : r.ClosesWith a :=
  fun text rest hrun => absurd hrun (h text rest)

/-- A mark that is looked for behind characters that are skipped. -/
theorem closesWith_skipWhile_next {p : Char → Bool} {inside : Unfinished}
    {f : Char → Reading Reason β} {b : β} (hf : ∀ c, (f c).ClosesWith b) :
    (do skipWhile p; f (← next inside) : Reading Reason β).ClosesWith b := by
  intro text rest hrun more
  obtain ⟨_, _, hskip, hnext⟩ := bind_eq_ok_iff.1 hrun
  cases hskip
  obtain ⟨c, left, hc, hrest⟩ := bind_eq_ok_iff.1 hnext
  rw [next_eq_ok_iff] at hc
  have hskip : (skipWhile p : Reading Reason Unit) (text ++ more) = .ok ((), c :: left ++ more) := by
    rw [skipWhile, List.dropWhile_append, hc]
    rfl
  rw [bind_of_ok hskip]
  exact hf c hrest more

theorem closes_fail (fault : TextFault) : Closes (fail fault : Reading Reason α) :=
  fun _ _ _ h => nomatch h

theorem closes_refuse (reason : Reason) : Closes (refuse reason : Reading Reason α) :=
  fun _ _ _ h => nomatch h

/-- A sequence ends with a closing mark if its last part does, and the part before comes to a closing
mark or is followed by more text. -/
theorem Extends.closes_bind (h : Lasting Apart r) (hf : ∀ a, Closes (f a))
    (hnext : ∀ a, r.ClosesWith a ∨ ∀ b rest, f a [] ≠ .ok (b, rest)) : Closes (r >>= f) := by
  intro b text rest hrun more
  obtain ⟨a, mid, ha, hb⟩ := bind_eq_ok_iff.1 hrun
  have hlonger : r (text ++ more) = .ok (a, mid ++ more) := by
    rcases hnext a with hclose | hneeds
    · exact hclose ha more
    · refine h.ok ha ?_
      rintro rfl
      exact absurd hb (hneeds b rest)
  rw [bind_of_ok hlonger]
  exact hf a b hb more

/-- A repetition ends with a closing mark if its last round does. -/
theorem closes_iterate {inside : Unfinished} {step : σ → Reading Reason (Option σ)}
    (h : ∀ s, Lasting Apart (step s)) (hclose : ∀ s, (step s).ClosesWith none)
    (hneeds : ∀ s, NeedsText (step s)) (s : σ) : Closes (iterate inside step s) := by
  have hwithin : ∀ fuel later s text rest s', iterateWithin inside step fuel s text = .ok (s', rest) →
      ∀ more, iterateWithin inside step (fuel ++ later) s (text ++ more) =
        .ok (s', rest ++ more) := by
    intro fuel later
    induction fuel with
    | nil => exact fun s text rest s' hrun => nomatch hrun
    | cons c fuel ih =>
      intro s text rest s' hrun more
      obtain ⟨o, mid, hstep, hrest⟩ := bind_eq_ok_iff.1 hrun
      rw [List.cons_append, iterateWithin]
      cases o with
      | none =>
        obtain ⟨rfl, rfl⟩ := pure_eq_ok_iff.1 hrest
        rw [bind_of_ok (hclose s hstep more)]
        rfl
      | some next =>
        -- another round follows, so there is text left for it
        have hmid : mid ≠ [] := by
          rintro rfl
          cases fuel with
          | nil => cases hrest
          | cons d fuel => exact (hneeds next).bind.ne_ok hrest
        rw [bind_of_ok ((h s).ok hstep fun hnil => absurd hnil hmid)]
        exact ih next mid rest s' hrest more
  exact fun s' text rest hrun more => hwithin text more s text rest s' hrun more

end Reading

end DocTree
