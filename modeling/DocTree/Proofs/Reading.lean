import DocTree.Reading

/-!
# Readings that succeed

What a reading gives where it gives something: a sequence of readings gives what its last part gives
on the text that the parts before it leave (`bind_eq_ok_iff`), and a repetition goes through a text
that is put together from pieces, each of which its step takes (`iterate_of_pieces`, `many_of_pieces`).
-/

namespace DocTree

/-- A computation that succeeds does so step by step. -/
theorem exists_of_bind_eq_ok {ε α β : Type} {e : Except ε α} {f : α → Except ε β} {b : β}
    (h : e >>= f = .ok b) : ∃ a, e = .ok a ∧ f a = .ok b := by
  cases e with
  | error reason => cases h
  | ok a => exact ⟨a, rfl, h⟩

theorem toOption_eq_some_iff {ε α : Type} {e : Except ε α} {a : α} :
    e.toOption = some a ↔ e = .ok a := by
  cases e <;> simp [Except.toOption]

theorem mapError_eq_ok_iff {ε ε' α : Type} {e : Except ε α} {f : ε → ε'} {a : α} :
    e.mapError f = .ok a ↔ e = .ok a := by
  cases e with
  | error reason => exact iff_of_false (by rintro ⟨⟩) (by rintro ⟨⟩)
  | ok b =>
    change Except.ok b = .ok a ↔ _
    rw [Except.ok.injEq, Except.ok.injEq]

theorem mapError_eq_error_iff {ε ε' α : Type} {e : Except ε α} {f : ε → ε'} {reason : ε'} :
    e.mapError f = .error reason ↔ ∃ cause, e = .error cause ∧ reason = f cause := by
  cases e with
  | error cause =>
    change Except.error (f cause) = .error reason ↔ _
    simp [eq_comm]
  | ok b => exact iff_of_false (by rintro ⟨⟩) (by rintro ⟨_, ⟨⟩, _⟩)

end DocTree

namespace DocTree.Reading

variable {Reason α β σ : Type}

/-! ### Sequences -/

theorem bind_of_ok {r : Reading Reason α} {text mid : List Char} {a : α}
    (h : r text = .ok (a, mid)) (f : α → Reading Reason β) : (r >>= f) text = f a mid := by
  change (r text >>= fun x => f x.1 x.2) = _
  rw [h]
  rfl

theorem bind_of_error {r : Reading Reason α} {text : List Char} {e : ReadError Reason}
    (h : r text = .error e) (f : α → Reading Reason β) : (r >>= f) text = .error e := by
  change (r text >>= fun x => f x.1 x.2) = _
  rw [h]
  rfl

theorem bind_eq_ok_iff {r : Reading Reason α} {f : α → Reading Reason β} {text rest : List Char}
    {b : β} : (r >>= f) text = .ok (b, rest) ↔
      ∃ a mid, r text = .ok (a, mid) ∧ f a mid = .ok (b, rest) := by
  cases h : r text with
  | error e => simp [bind_of_error h]
  | ok result =>
    obtain ⟨a, mid⟩ := result
    rw [bind_of_ok h]
    constructor
    · intro hf
      exact ⟨a, mid, rfl, hf⟩
    · rintro ⟨a', mid', heq, hf⟩
      cases heq
      exact hf

@[simp] theorem pure_eq_ok_iff {a b : α} {text rest : List Char} :
    (pure a : Reading Reason α) text = .ok (b, rest) ↔ a = b ∧ text = rest := by
  change Except.ok (a, text) = _ ↔ _
  simp

/-! ### Single characters -/

@[simp] theorem next_eq_ok_iff {inside : Unfinished} {text rest : List Char} {c : Char} :
    (next inside : Reading Reason Char) text = .ok (c, rest) ↔ text = c :: rest := by
  cases text with
  | nil => simp [next]
  | cons d text => simp [next]

@[simp] theorem peek_eq_ok_iff {text rest : List Char} {o : Option Char} :
    (peek : Reading Reason (Option Char)) text = .ok (o, rest) ↔ text.head? = o ∧ text = rest := by
  change Except.ok (text.head?, text) = _ ↔ _
  simp

/-- The character that was taken stood in front. -/
theorem takeIf_eq_ok {allowed text rest : List Char} {o : Option Char}
    (h : (takeIf allowed : Reading Reason (Option Char)) text = .ok (o, rest)) :
    text = o.toList ++ rest ∧ ∀ c ∈ o, c ∈ allowed := by
  cases text with
  | nil =>
    cases h
    exact ⟨rfl, nofun⟩
  | cons c text =>
    rw [takeIf] at h
    split at h
    next hc =>
      cases h
      refine ⟨rfl, ?_⟩
      rintro d ⟨⟩
      exact hc
    · cases h
      exact ⟨rfl, nofun⟩

theorem takeWhile_eq_ok {p : Char → Bool} {text run rest : List Char}
    (h : (takeWhile p : Reading Reason (List Char)) text = .ok (run, rest)) :
    text = run ++ rest ∧ ∀ c ∈ run, p c = true := by
  cases h
  exact ⟨List.takeWhile_append_dropWhile.symm, List.all_eq_true.1 List.all_takeWhile⟩

theorem expect_eq_ok {inside : Unfinished} {how : Malformation} {word text rest : List Char}
    (h : (expect inside how word : Reading Reason Unit) text = .ok ((), rest)) :
    text = word ++ rest := by
  induction word generalizing text with
  | nil => exact (pure_eq_ok_iff.1 h).2
  | cons c word ih =>
    rw [expect, bind_eq_ok_iff] at h
    obtain ⟨d, mid, hd, h⟩ := h
    split at h
    next heq =>
      rw [next_eq_ok_iff.1 hd, heq, ih h]
      rfl
    · cases h

theorem takeIf_of_not_mem {allowed text : List Char} (h : ∀ c ∈ text.head?, c ∉ allowed) :
    (takeIf allowed : Reading Reason (Option Char)) text = .ok (none, text) := by
  cases text with
  | nil => rfl
  | cons c text => simp [takeIf, h c rfl]

theorem takeIf_of_mem {allowed : List Char} {c : Char} (h : c ∈ allowed) (text : List Char) :
    (takeIf allowed : Reading Reason (Option Char)) (c :: text) = .ok (some c, text) := by
  simp [takeIf, h]

/-- A run of characters ends where the first other one stands. -/
theorem takeWhile_append {p : Char → Bool} {run rest : List Char} (hrun : ∀ c ∈ run, p c = true)
    (hrest : ∀ c ∈ rest.head?, p c = false) :
    (takeWhile p : Reading Reason (List Char)) (run ++ rest) = .ok (run, rest) := by
  have hd : rest.dropWhile p = rest := by
    cases rest with
    | nil => rfl
    | cons c rest => simp [hrest c rfl]
  have ht : rest.takeWhile p = [] := by
    cases rest with
    | nil => rfl
    | cons c rest => simp [hrest c rfl]
  simp [takeWhile, List.takeWhile_append_of_pos hrun, List.dropWhile_append_of_pos hrun, hd, ht]

theorem expect_append (inside : Unfinished) (how : Malformation) (word rest : List Char) :
    (expect inside how word : Reading Reason Unit) (word ++ rest) = .ok ((), rest) := by
  induction word with
  | nil => rfl
  | cons c word ih =>
    have hn : (next inside : Reading Reason Char) (c :: (word ++ rest)) = .ok (c, word ++ rest) :=
      next_eq_ok_iff.2 rfl
    rw [List.cons_append, expect, bind_of_ok hn, if_pos rfl, ih]

/-! ### Repetitions -/

/-- A round of a repetition ends it, or gives the state that the other rounds start from. -/
theorem iterateWithin_cons_eq_ok_iff {inside : Unfinished} {step : σ → Reading Reason (Option σ)}
    {c : Char} {fuel text rest : List Char} {s s' : σ} :
    iterateWithin inside step (c :: fuel) s text = .ok (s', rest) ↔
      (step s text = .ok (none, rest) ∧ s = s') ∨
        ∃ next mid, step s text = .ok (some next, mid) ∧
          iterateWithin inside step fuel next mid = .ok (s', rest) := by
  rw [iterateWithin, bind_eq_ok_iff]
  constructor
  · rintro ⟨o, mid, hstep, hrest⟩
    cases o with
    | none =>
      obtain ⟨rfl, rfl⟩ := pure_eq_ok_iff.1 hrest
      exact .inl ⟨hstep, rfl⟩
    | some next => exact .inr ⟨next, mid, hstep, hrest⟩
  · rintro (⟨hstep, rfl⟩ | ⟨next, mid, hstep, hrest⟩)
    · exact ⟨none, rest, hstep, rfl⟩
    · exact ⟨some next, mid, hstep, hrest⟩

section Pieces

variable {inside : Unfinished} {step : σ → Reading Reason (Option σ)} {add : σ → β → σ}
  {write : β → List Char} {Follows : List Char → Prop} {pieces : List β} {stop rest : List Char}

theorem iterateWithin_of_pieces
    (hstep : ∀ b ∈ pieces, ∀ s after, Follows after →
      step s (write b ++ after) = .ok (some (add s b), after))
    (hfollows : ∀ b ∈ pieces, ∀ after, Follows (write b ++ after)) (hstop : Follows stop)
    (hend : ∀ s, step s stop = .ok (none, rest)) :
    ∀ (fuel : List Char) (s : σ), pieces.length < fuel.length →
      iterateWithin inside step fuel s (pieces.flatMap write ++ stop) =
        .ok (pieces.foldl add s, rest) := by
  -- one round for every piece, and one for the end
  induction pieces with
  | nil =>
    intro fuel s hlt
    cases fuel with
    | nil => simp at hlt
    | cons c fuel => rw [iterateWithin, List.flatMap_nil, List.nil_append, bind_of_ok (hend s)]; rfl
  | cons b pieces ih =>
    intro fuel s hlt
    cases fuel with
    | nil => simp at hlt
    | cons c fuel =>
      have hafter : Follows (pieces.flatMap write ++ stop) := by
        cases pieces with
        | nil => exact hstop
        | cons b' pieces =>
          rw [List.flatMap_cons, List.append_assoc]
          exact hfollows b' (by simp) _
      rw [iterateWithin, List.flatMap_cons, List.append_assoc,
        bind_of_ok (hstep b List.mem_cons_self s _ hafter)]
      exact ih (fun b hb => hstep b (List.mem_cons_of_mem _ hb))
        (fun b hb => hfollows b (List.mem_cons_of_mem _ hb)) fuel _ (by simpa using hlt)

theorem length_le_length_flatMap (h : ∀ b ∈ pieces, write b ≠ []) :
    pieces.length ≤ (pieces.flatMap write).length := by
  induction pieces with
  | nil => simp
  | cons b pieces ih =>
    have hb : 0 < (write b).length := List.length_pos_iff.2 (h b List.mem_cons_self)
    have hr := ih fun b hb => h b (List.mem_cons_of_mem _ hb)
    simp only [List.flatMap_cons, List.length_append, List.length_cons]
    omega

variable (Follows) in
/-- A repetition takes a text piece by piece, up to where its step stops. -/
theorem iterate_of_pieces
    (hstep : ∀ b ∈ pieces, ∀ s after, Follows after →
      step s (write b ++ after) = .ok (some (add s b), after))
    (hfollows : ∀ b ∈ pieces, ∀ after, Follows (write b ++ after)) (hstop : Follows stop)
    (hend : ∀ s, step s stop = .ok (none, rest)) (hwrite : ∀ b ∈ pieces, write b ≠ [])
    (hne : stop ≠ []) (s : σ) :
    iterate inside step s (pieces.flatMap write ++ stop) = .ok (pieces.foldl add s, rest) := by
  refine iterateWithin_of_pieces hstep hfollows hstop hend _ s ?_
  have hp := length_le_length_flatMap hwrite
  have hs : 0 < stop.length := List.length_pos_iff.2 hne
  simp only [List.length_append]
  omega

end Pieces

/-- What a step gives in a repetition, in at most as many rounds as the fuel is long. -/
def manyWithin (inside : Unfinished) (step : Reading Reason (Option α)) :
    List Char → Reading Reason (List α)
  | [] => fail (.endsIn inside)
  | _ :: fuel => do
    match ← step with
    | none => return []
    | some a => return a :: (← manyWithin inside step fuel)

/-- A round of a repetition that collects ends it, or gives the first of what is collected. -/
theorem manyWithin_cons_eq_ok_iff {inside : Unfinished} {step : Reading Reason (Option α)} {c : Char}
    {fuel text rest : List Char} {found : List α} :
    manyWithin inside step (c :: fuel) text = .ok (found, rest) ↔
      (step text = .ok (none, rest) ∧ found = []) ∨
        ∃ a mid later, step text = .ok (some a, mid) ∧
          manyWithin inside step fuel mid = .ok (later, rest) ∧ found = a :: later := by
  rw [manyWithin, bind_eq_ok_iff]
  constructor
  · rintro ⟨o, mid, hstep, hrest⟩
    cases o with
    | none =>
      obtain ⟨rfl, rfl⟩ := pure_eq_ok_iff.1 hrest
      exact .inl ⟨hstep, rfl⟩
    | some a =>
      obtain ⟨later, last, hlater, hcons⟩ := bind_eq_ok_iff.1 hrest
      obtain ⟨rfl, rfl⟩ := pure_eq_ok_iff.1 hcons
      exact .inr ⟨a, mid, later, hstep, hlater, rfl⟩
  · rintro (⟨hstep, rfl⟩ | ⟨a, mid, later, hstep, hlater, rfl⟩)
    · exact ⟨none, rest, hstep, rfl⟩
    · exact ⟨some a, mid, hstep, bind_eq_ok_iff.2 ⟨later, rest, hlater, rfl⟩⟩

theorem iterateWithin_collect (inside : Unfinished) (step : Reading Reason (Option α))
    (fuel : List Char) (found : List α) :
    iterateWithin inside (fun found => do return (← step).map (· :: found)) fuel found = (do
      return (← manyWithin inside step fuel).reverse ++ found) := by
  induction fuel generalizing found with
  | nil => rfl
  | cons c fuel ih =>
    funext text
    rw [iterateWithin, manyWithin]
    cases h : step text with
    | error e =>
      rw [bind_of_error (bind_of_error h _), bind_of_error (bind_of_error h _)]
    | ok result =>
      obtain ⟨o, mid⟩ := result
      rw [bind_assoc, bind_assoc, bind_of_ok h, bind_of_ok h]
      cases o with
      | none => rfl
      | some a =>
        rw [pure_bind]
        dsimp only [Option.map_some]
        rw [ih]
        simp

/-- A repetition that collects, as a recursion on its rounds. -/
theorem many_apply (inside : Unfinished) (step : Reading Reason (Option α)) (text : List Char) :
    many inside step text = manyWithin inside step text text := by
  have h : (iterate inside (fun found => do return (← step).map (· :: found)) [] :
      Reading Reason (List α)) text = (do
        return (← manyWithin inside step text).reverse ++ []) text := by
    rw [iterate, iterateWithin_collect]
  rw [many]
  cases hm : manyWithin inside step text text with
  | error e =>
    rw [bind_of_error hm] at h
    rw [bind_of_error h]
  | ok result =>
    rw [bind_of_ok hm] at h
    rw [bind_of_ok h, List.append_nil, List.reverse_reverse]
    rfl

/-- Where one step gives something another one gives the same, so their repetitions do. -/
theorem manyWithin_of_imp {inside : Unfinished} {step step' : Reading Reason (Option α)}
    (h : ∀ text result, step text = .ok result → step' text = .ok result) (fuel : List Char) :
    ∀ (text : List Char) (result : List α × List Char),
      manyWithin inside step fuel text = .ok result →
        manyWithin inside step' fuel text = .ok result := by
  induction fuel with
  | nil =>
    intro text result hm
    cases hm
  | cons c fuel ih =>
    rintro text ⟨found, rest⟩ hm
    rw [manyWithin_cons_eq_ok_iff] at hm ⊢
    rcases hm with ⟨hstep, hfound⟩ | ⟨a, mid, later, hstep, hlater, hfound⟩
    · exact .inl ⟨h _ _ hstep, hfound⟩
    · exact .inr ⟨a, mid, later, h _ _ hstep, ih mid _ hlater, hfound⟩

/-- The same for a repetition that collects what its step gives. -/
theorem many_of_pieces {inside : Unfinished} {step : Reading Reason (Option α)} {say : β → α}
    {write : β → List Char} (Follows : List Char → Prop) {pieces : List β} {stop rest : List Char}
    (hstep : ∀ b ∈ pieces, ∀ after, Follows after →
      step (write b ++ after) = .ok (some (say b), after))
    (hfollows : ∀ b ∈ pieces, ∀ after, Follows (write b ++ after)) (hstop : Follows stop)
    (hend : step stop = .ok (none, rest)) (hwrite : ∀ b ∈ pieces, write b ≠ []) (hne : stop ≠ []) :
    many inside step (pieces.flatMap write ++ stop) = .ok (pieces.map say, rest) := by
  have hi : (iterate inside (fun found => do return (← step).map (· :: found)) [] :
      Reading Reason (List α)) (pieces.flatMap write ++ stop) =
        .ok (pieces.foldl (fun found b => say b :: found) [], rest) :=
    iterate_of_pieces Follows
      (fun b hb found after hafter => by rw [bind_of_ok (hstep b hb after hafter)]; rfl)
      hfollows hstop (fun found => by rw [bind_of_ok hend]; rfl) hwrite hne []
  rw [many, bind_of_ok hi]
  simp [pure_eq_ok_iff]

/-! ### Whole texts -/

theorem run_eq_ok_iff {reading : Reading Reason α} {text : String} {a : α} :
    run reading text = .ok a ↔ reading text.toList = .ok (a, []) := by
  rw [run]
  cases reading text.toList with
  | error e => simp [bind, Except.bind]
  | ok result =>
    obtain ⟨b, rest⟩ := result
    cases rest with
    | nil => simp [bind, Except.bind]
    | cons c rest => simp [bind, Except.bind]

end DocTree.Reading
