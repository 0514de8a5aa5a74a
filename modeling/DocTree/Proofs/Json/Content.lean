import DocTree.Json.Reader
import DocTree.Proofs.Reading

/-!
# Formats within JSON

A format that is written in JSON is read in one pass, but what it accepts depends on no more than the
value that stands in the text: `Decodes value reading content` says that `reading` gives what `content`
makes of the value, and nothing where that makes nothing.  Readings of arrays and objects inherit this
from the readings of items and members (`items_decodes`, `members_decodes`).
-/

namespace DocTree.Json

open Reading

variable {Reason α σ : Type}

/-! ### Values by their first token -/

/-- Whether the value is no container. -/
def isScalar : Json → Bool
  | array _ => false
  | object _ => false
  | _ => true

section FirstToken

variable {round : Numeral → Option Binary64.Finite}

/-- A value is a scalar, an array or an object, which its first token tells. -/
theorem valueWith_eq_ok_iff {arrayRest objectRest : Reading Reason Json} {text rest : List Char}
    {j : Json} :
    valueWithBy round arrayRest objectRest text = .ok (j, rest) ↔
      (j.isScalar = true ∧ @tokenBy Reason round text = .ok (j.head, rest)) ∨
        (∃ mid, @tokenBy Reason round text = .ok (.array, mid) ∧ arrayRest mid = .ok (j, rest)) ∨
          ∃ mid, @tokenBy Reason round text = .ok (.object, mid) ∧
            objectRest mid = .ok (j, rest) := by
  unfold valueWithBy
  rw [bind_eq_ok_iff]
  constructor
  · rintro ⟨head, mid, htoken, hrest⟩
    cases head with
    | array => exact .inr (.inl ⟨mid, htoken, hrest⟩)
    | object => exact .inr (.inr ⟨mid, htoken, hrest⟩)
    | _ =>
      obtain ⟨rfl, rfl⟩ := pure_eq_ok_iff.1 hrest
      exact .inl ⟨rfl, htoken⟩
  · rintro (⟨hscalar, htoken⟩ | ⟨mid, htoken, hrest⟩ | ⟨mid, htoken, hrest⟩)
    · refine ⟨_, _, htoken, ?_⟩
      cases j with
      | array => cases hscalar
      | object => cases hscalar
      | _ => rfl
    · exact ⟨_, _, htoken, hrest⟩
    · exact ⟨_, _, htoken, hrest⟩

/-- A reading that wraps what another one gives. -/
theorem map_eq_ok_iff {r : Reading Reason α} {f : α → σ} (hf : ∀ a b, f a = f b → a = b)
    {text rest : List Char} {a : α} :
    ((do return f (← r)) : Reading Reason σ) text = .ok (f a, rest) ↔ r text = .ok (a, rest) := by
  rw [bind_eq_ok_iff]
  constructor
  · rintro ⟨b, mid, hb, h⟩
    obtain ⟨heq, rfl⟩ := pure_eq_ok_iff.1 h
    rw [hf _ _ heq] at hb
    exact hb
  · exact fun h => ⟨a, rest, h, rfl⟩

theorem map_ne_ok {r : Reading Reason α} {f : α → σ} {b : σ} (hf : ∀ a, f a ≠ b)
    {text rest : List Char} : ((do return f (← r)) : Reading Reason σ) text ≠ .ok (b, rest) := by
  intro h
  obtain ⟨a, mid, -, ha⟩ := bind_eq_ok_iff.1 h
  exact hf a (pure_eq_ok_iff.1 ha).1

theorem value_eq_ok_scalar_iff {levels : Nat} {text rest : List Char} {j : Json}
    (hj : j.isScalar = true) :
    @valueBy Reason round levels text = .ok (j, rest) ↔
      @tokenBy Reason round text = .ok (j.head, rest) := by
  have harray : ∀ js, array js ≠ j := by rintro js rfl; cases hj
  have hobject : ∀ ms, object ms ≠ j := by rintro ms rfl; cases hj
  cases levels with
  | zero => rw [valueBy, valueWith_eq_ok_iff]; simp [hj, fail]
  | succ levels =>
    rw [valueBy, valueWith_eq_ok_iff]
    constructor
    · rintro (⟨-, h⟩ | ⟨mid, -, h⟩ | ⟨mid, -, h⟩)
      · exact h
      · exact absurd h (map_ne_ok harray)
      · exact absurd h (map_ne_ok hobject)
    · exact fun h => .inl ⟨hj, h⟩

theorem value_eq_ok_array_iff {levels : Nat} {text rest : List Char} {js : List Json} :
    @valueBy Reason round levels text = .ok (.array js, rest) ↔
      ∃ below mid, levels = below + 1 ∧ @tokenBy Reason round text = .ok (.array, mid) ∧
        items (@valueBy Reason round below) mid = .ok (js, rest) := by
  cases levels with
  | zero => rw [valueBy, valueWith_eq_ok_iff]; simp [isScalar, fail]
  | succ levels =>
    rw [valueBy, valueWith_eq_ok_iff]
    constructor
    · rintro (⟨h, -⟩ | ⟨mid, htoken, h⟩ | ⟨mid, -, h⟩)
      · cases h
      · exact ⟨levels, mid, rfl, htoken, (map_eq_ok_iff (by rintro _ _ ⟨⟩; rfl)).1 h⟩
      · exact absurd h (map_ne_ok (by simp))
    · rintro ⟨_, mid, ⟨⟩, htoken, h⟩
      exact .inr (.inl ⟨mid, htoken, (map_eq_ok_iff (by rintro _ _ ⟨⟩; rfl)).2 h⟩)

theorem value_eq_ok_object_iff {levels : Nat} {text rest : List Char} {ms : List (String × Json)} :
    @valueBy Reason round levels text = .ok (.object ms, rest) ↔
      ∃ below mid, levels = below + 1 ∧ @tokenBy Reason round text = .ok (.object, mid) ∧
        members (collect (@valueBy Reason round below)) [] mid = .ok (ms, rest) := by
  cases levels with
  | zero => rw [valueBy, valueWith_eq_ok_iff]; simp [isScalar, fail]
  | succ levels =>
    rw [valueBy, valueWith_eq_ok_iff]
    constructor
    · rintro (⟨h, -⟩ | ⟨mid, -, h⟩ | ⟨mid, htoken, h⟩)
      · cases h
      · exact absurd h (map_ne_ok (by simp))
      · exact ⟨levels, mid, rfl, htoken, (map_eq_ok_iff (by rintro _ _ ⟨⟩; rfl)).1 h⟩
    · rintro ⟨_, mid, ⟨⟩, htoken, h⟩
      exact .inr (.inr ⟨mid, htoken, (map_eq_ok_iff (by rintro _ _ ⟨⟩; rfl)).2 h⟩)

end FirstToken

/-! ### Items -/

/-- The reading gives what `content` makes of the value that stands in the text. -/
def Decodes (value : Reading Reason Json) (reading : Reading Reason α) (content : Json → Option α) :
    Prop :=
  ∀ text a rest, reading text = .ok (a, rest) ↔ ∃ j, value text = .ok (j, rest) ∧ content j = some a

/-- A reading that decides by the first token is told by what it makes of scalars, of arrays by their
items and of objects by their members. -/
theorem decodes_of_head {levels : Nat} {go : Head → Reading Reason α} {content : Json → Option α}
    (hscalar : ∀ j : Json, j.isScalar = true → ∀ text a rest,
      go j.head text = .ok (a, rest) ↔ content j = some a ∧ text = rest)
    (harray : ∀ text a rest, go .array text = .ok (a, rest) ↔
      ∃ below js, levels = below + 1 ∧ items (@value Reason below) text = .ok (js, rest) ∧
        content (.array js) = some a)
    (hobject : ∀ text a rest, go .object text = .ok (a, rest) ↔
      ∃ below ms, levels = below + 1 ∧
        members (collect (@value Reason below)) [] text = .ok (ms, rest) ∧
        content (.object ms) = some a) :
    Decodes (@value Reason levels) (do go (← token)) content := by
  intro text a rest
  rw [bind_eq_ok_iff]
  constructor
  · rintro ⟨head, mid, htoken, hgo⟩
    have hflat : ∀ j : Json, j.isScalar = true → head = j.head →
        ∃ j, @value Reason levels text = .ok (j, rest) ∧ content j = some a := by
      rintro j hj rfl
      obtain ⟨ha, rfl⟩ := (hscalar j hj _ _ _).1 hgo
      exact ⟨j, (value_eq_ok_scalar_iff hj).2 htoken, ha⟩
    cases head with
    | array =>
      obtain ⟨below, js, hlevels, hjs, ha⟩ := (harray _ _ _).1 hgo
      exact ⟨.array js, value_eq_ok_array_iff.2 ⟨below, mid, hlevels, htoken, hjs⟩, ha⟩
    | object =>
      obtain ⟨below, ms, hlevels, hms, ha⟩ := (hobject _ _ _).1 hgo
      exact ⟨.object ms, value_eq_ok_object_iff.2 ⟨below, mid, hlevels, htoken, hms⟩, ha⟩
    | null => exact hflat .null rfl rfl
    | bool b => exact hflat (.bool b) rfl rfl
    | integer n => exact hflat (.integer n) rfl rfl
    | float x => exact hflat (.float x) rfl rfl
    | string s => exact hflat (.string s) rfl rfl
  · rintro ⟨j, hj, ha⟩
    cases j with
    | array js =>
      obtain ⟨below, mid, hlevels, htoken, hjs⟩ := value_eq_ok_array_iff.1 hj
      exact ⟨.array, mid, htoken, (harray _ _ _).2 ⟨below, js, hlevels, hjs, ha⟩⟩
    | object ms =>
      obtain ⟨below, mid, hlevels, htoken, hms⟩ := value_eq_ok_object_iff.1 hj
      exact ⟨.object, mid, htoken, (hobject _ _ _).2 ⟨below, ms, hlevels, hms, ha⟩⟩
    | null | bool | integer | float | string =>
      exact ⟨_, rest, (value_eq_ok_scalar_iff rfl).1 hj, (hscalar _ rfl _ _ _).2 ⟨ha, rfl⟩⟩

theorem Decodes.map {value : Reading Reason Json} {reading : Reading Reason α}
    {content : Json → Option α} (h : Decodes value reading content) (f : α → σ) :
    Decodes value (do return f (← reading)) fun j => (content j).map f := by
  intro text b rest
  constructor
  · intro hrun
    obtain ⟨a, mid, ha, hb⟩ := bind_eq_ok_iff.1 hrun
    obtain ⟨rfl, rfl⟩ := pure_eq_ok_iff.1 hb
    obtain ⟨j, hj, hja⟩ := (h _ _ _).1 ha
    exact ⟨j, hj, congrArg (Option.map f) hja⟩
  · rintro ⟨j, hj, hb⟩
    obtain ⟨a, hja, rfl⟩ := Option.map_eq_some_iff.1 hb
    exact bind_eq_ok_iff.2 ⟨a, rest, (h _ _ _).2 ⟨j, hj, hja⟩, rfl⟩

theorem laterItem?_eq_ok_none_iff {item : Reading Reason α} {text rest : List Char} :
    laterItem? item text = .ok (none, rest) ↔
      @anotherItem Reason text = .ok (false, rest) := by
  rw [laterItem?, bind_eq_ok_iff]
  constructor
  · rintro ⟨b, mid, hb, h⟩
    cases b with
    | false =>
      obtain ⟨-, rfl⟩ := pure_eq_ok_iff.1 h
      exact hb
    | true =>
      obtain ⟨a, _, -, ha⟩ := bind_eq_ok_iff.1 h
      cases (pure_eq_ok_iff.1 ha).1
  · exact fun h => ⟨_, _, h, rfl⟩

theorem laterItem?_eq_ok_some_iff {item : Reading Reason α} {text rest : List Char} {a : α} :
    laterItem? item text = .ok (some a, rest) ↔
      ∃ mid, @anotherItem Reason text = .ok (true, mid) ∧
        item mid = .ok (a, rest) := by
  rw [laterItem?, bind_eq_ok_iff]
  constructor
  · rintro ⟨b, mid, hb, h⟩
    cases b with
    | false => cases (pure_eq_ok_iff.1 h).1
    | true =>
      obtain ⟨a', mid', hitem, ha⟩ := bind_eq_ok_iff.1 h
      obtain ⟨heq, rfl⟩ := pure_eq_ok_iff.1 ha
      cases heq
      exact ⟨mid, hb, hitem⟩
  · rintro ⟨mid, hmid, hitem⟩
    refine ⟨_, _, hmid, ?_⟩
    dsimp only
    rw [bind_of_ok hitem]
    rfl

theorem mapM_cons_eq_some_iff {content : Json → Option α} {j : Json} {js : List Json}
    {as : List α} : (j :: js).mapM content = some as ↔
      ∃ a as', content j = some a ∧ js.mapM content = some as' ∧ as = a :: as' := by
  rw [List.mapM_cons]
  constructor
  · intro h
    obtain ⟨a, ha, h⟩ := Option.bind_eq_some_iff.1 h
    obtain ⟨as', has, h⟩ := Option.bind_eq_some_iff.1 h
    exact ⟨a, as', ha, has, (Option.some.inj h).symm⟩
  · rintro ⟨a, as', ha, has, rfl⟩
    rw [ha, has]
    rfl

/-- The closing of an array does not depend on how its items are read. -/
theorem laterItem?_eq_ok_none_congr {item : Reading Reason α} {other : Reading Reason σ}
    {text rest : List Char} :
    laterItem? item text = .ok (none, rest) ↔ laterItem? other text = .ok (none, rest) :=
  laterItem?_eq_ok_none_iff.trans laterItem?_eq_ok_none_iff.symm

theorem laterItem?_decodes {value : Reading Reason Json} {item : Reading Reason α}
    {content : Json → Option α} (h : Decodes value item content) {text rest : List Char} {a : α} :
    laterItem? item text = .ok (some a, rest) ↔
      ∃ j, laterItem? value text = .ok (some j, rest) ∧ content j = some a := by
  simp only [laterItem?_eq_ok_some_iff, h _ _ _]
  constructor
  · rintro ⟨mid, hmore, j, hj, hja⟩
    exact ⟨j, ⟨mid, hmore, hj⟩, hja⟩
  · rintro ⟨j, ⟨mid, hmore, hj⟩, hja⟩
    exact ⟨mid, hmore, j, hj, hja⟩

theorem manyWithin_laterItem?_decodes {value : Reading Reason Json} {item : Reading Reason α}
    {content : Json → Option α} (h : Decodes value item content) (fuel : List Char) :
    ∀ (text rest : List Char) (as : List α),
      manyWithin .list (laterItem? item) fuel text = .ok (as, rest) ↔
        ∃ js, manyWithin .list (laterItem? value) fuel text = .ok (js, rest) ∧
          js.mapM content = some as := by
  -- both repetitions go round by round: they end at the same place, and give an item each before
  induction fuel with
  | nil => simp [manyWithin, fail]
  | cons c fuel ih =>
    intro text rest as
    rw [manyWithin_cons_eq_ok_iff]
    constructor
    · rintro (⟨hend, rfl⟩ | ⟨a, mid, later, hitem, hlater, rfl⟩)
      · refine ⟨[], manyWithin_cons_eq_ok_iff.2 (.inl ⟨?_, rfl⟩), rfl⟩
        exact laterItem?_eq_ok_none_congr.1 hend
      · obtain ⟨j, hj, hja⟩ := (laterItem?_decodes h).1 hitem
        obtain ⟨js, hjs, hmap⟩ := (ih _ _ _).1 hlater
        refine ⟨j :: js, manyWithin_cons_eq_ok_iff.2 (.inr ⟨j, mid, js, hj, hjs, rfl⟩), ?_⟩
        exact mapM_cons_eq_some_iff.2 ⟨a, later, hja, hmap, rfl⟩
    · rintro ⟨js, hrun, hmap⟩
      obtain ⟨hend, rfl⟩ | ⟨j, mid, later, hj, hlater, rfl⟩ := manyWithin_cons_eq_ok_iff.1 hrun
      · cases hmap
        exact .inl ⟨laterItem?_eq_ok_none_congr.1 hend, rfl⟩
      · obtain ⟨a, as', hja, hmap', rfl⟩ := mapM_cons_eq_some_iff.1 hmap
        refine .inr ⟨a, mid, as', (laterItem?_decodes h).2 ⟨j, hj, hja⟩, ?_, rfl⟩
        exact (ih _ _ _).2 ⟨later, hlater, hmap'⟩

/-- An array closes behind its bracket, or has a first item and later ones. -/
theorem items_eq_ok_iff {item : Reading Reason α} {text rest : List Char} {as : List α} :
    items item text = .ok (as, rest) ↔
      (@anyItem Reason text = .ok (false, rest) ∧ as = []) ∨
        ∃ start a mid later, @anyItem Reason text = .ok (true, start) ∧
          item start = .ok (a, mid) ∧
          manyWithin .list (laterItem? item) mid mid = .ok (later, rest) ∧ as = a :: later := by
  rw [items, bind_eq_ok_iff]
  constructor
  · rintro ⟨b, start, hany, hrest⟩
    cases b with
    | false =>
      obtain ⟨rfl, rfl⟩ := pure_eq_ok_iff.1 hrest
      exact .inl ⟨hany, rfl⟩
    | true =>
      obtain ⟨a, mid, ha, hrest⟩ := bind_eq_ok_iff.1 hrest
      obtain ⟨later, last, hlater, hcons⟩ := bind_eq_ok_iff.1 hrest
      obtain ⟨rfl, rfl⟩ := pure_eq_ok_iff.1 hcons
      rw [many_apply] at hlater
      exact .inr ⟨start, a, mid, later, hany, ha, hlater, rfl⟩
  · rintro (⟨hany, rfl⟩ | ⟨start, a, mid, later, hany, ha, hlater, rfl⟩)
    · exact ⟨false, rest, hany, rfl⟩
    · rw [← many_apply] at hlater
      refine ⟨true, start, hany, bind_eq_ok_iff.2 ⟨a, mid, ha, ?_⟩⟩
      exact bind_eq_ok_iff.2 ⟨later, rest, hlater, rfl⟩

/-- What is read of an array is what is made of its items. -/
theorem items_decodes {value : Reading Reason Json} {item : Reading Reason α}
    {content : Json → Option α} (h : Decodes value item content) (text rest : List Char)
    (as : List α) : items item text = .ok (as, rest) ↔
      ∃ js, items value text = .ok (js, rest) ∧ js.mapM content = some as := by
  rw [items_eq_ok_iff]
  constructor
  · rintro (⟨hnone, rfl⟩ | ⟨start, a, mid, later, hany, ha, hlater, rfl⟩)
    · exact ⟨[], items_eq_ok_iff.2 (.inl ⟨hnone, rfl⟩), rfl⟩
    · obtain ⟨j, hj, hja⟩ := (h _ _ _).1 ha
      obtain ⟨js, hjs, hmap⟩ := (manyWithin_laterItem?_decodes h _ _ _ _).1 hlater
      refine ⟨j :: js, items_eq_ok_iff.2 (.inr ⟨start, j, mid, js, hany, hj, hjs, rfl⟩), ?_⟩
      exact mapM_cons_eq_some_iff.2 ⟨a, later, hja, hmap, rfl⟩
  · rintro ⟨js, hrun, hmap⟩
    obtain ⟨hnone, rfl⟩ | ⟨start, j, mid, later, hany, hj, hlater, rfl⟩ := items_eq_ok_iff.1 hrun
    · cases hmap
      exact .inl ⟨hnone, rfl⟩
    · obtain ⟨a, as', hja, hmap', rfl⟩ := mapM_cons_eq_some_iff.1 hmap
      refine .inr ⟨start, a, mid, as', hany, (h _ _ _).2 ⟨j, hj, hja⟩, ?_, rfl⟩
      exact (manyWithin_laterItem?_decodes h _ _ _ _).2 ⟨later, hlater, hmap'⟩

/-! ### Members -/

/-- The reading of members gives what `add` makes of the state, the key and the value that stands in
the text. -/
def MemberDecodes (value : Reading Reason Json)
    (read : σ → String → Except Reason (Reading Reason σ)) (add : σ → String → Json → Option σ) :
    Prop :=
  ∀ s key text s' rest, (∃ r, read s key = .ok r ∧ r text = .ok (s', rest)) ↔
    ∃ j, value text = .ok (j, rest) ∧ add s key j = some s'

/-- Adds members to a state, one after the other. -/
def addAll (add : σ → String → Json → Option σ) (s : σ) (ms : List (String × Json)) : Option σ :=
  ms.foldlM (fun s m => add s m.1 m.2) s

theorem addAll_cons_eq_some_iff {add : σ → String → Json → Option σ} {s s' : σ} {key : String}
    {j : Json} {ms : List (String × Json)} : addAll add s ((key, j) :: ms) = some s' ↔
      ∃ next, add s key j = some next ∧ addAll add next ms = some s' := by
  rw [addAll, List.foldlM_cons]
  exact Option.bind_eq_some_iff

/-- A member behind the others is added to what they made of the state. -/
theorem addAll_append_singleton (add : σ → String → Json → Option σ) (s : σ)
    (ms : List (String × Json)) (m : String × Json) :
    addAll add s (ms ++ [m]) = (addAll add s ms).bind (add · m.1 m.2) := by
  unfold addAll
  rw [List.foldlM_append]
  exact congrArg (Option.bind _) (funext fun s => bind_pure _)

/-- What is added to a list of members comes last in it. -/
theorem addAll_concat (before ms : List (String × Json)) :
    addAll (fun read key j => some (read ++ [(key, j)])) before ms = some (before ++ ms) := by
  induction ms generalizing before with
  | nil => rw [List.append_nil]; rfl
  | cons m ms ih =>
    refine addAll_cons_eq_some_iff.2 ⟨_, rfl, ?_⟩
    rw [ih, List.append_assoc, List.singleton_append]

theorem decodes_self (value : Reading Reason Json) : Decodes value value some := by
  intro text j rest
  simp

/-- No key is refused. -/
theorem memberDecodes_of_decodes {value : Reading Reason Json}
    {reading : σ → String → Reading Reason σ} {add : σ → String → Json → Option σ}
    (h : ∀ s key, Decodes value (reading s key) (add s key)) :
    MemberDecodes value (fun s key => .ok (reading s key)) add := by
  intro s key text s' rest
  constructor
  · rintro ⟨r, hr, hrun⟩
    cases hr
    exact (h s key _ _ _).1 hrun
  · exact fun hj => ⟨_, rfl, (h s key _ _ _).2 hj⟩

theorem collect_decodes (value : Reading Reason Json) :
    MemberDecodes value (collect value) fun read key j => some (read ++ [(key, j)]) :=
  memberDecodes_of_decodes fun read key => (decodes_self value).map fun j => read ++ [(key, j)]

section Members

variable {value : Reading Reason Json} {read : σ → String → Except Reason (Reading Reason σ)}
  {add : σ → String → Json → Option σ} {text rest : List Char} {s s' : σ} {key : String}

theorem member_eq_ok_iff (h : MemberDecodes value read add) :
    member read s key text = .ok (s', rest) ↔
      ∃ mid j, @colon Reason text = .ok ((), mid) ∧ value mid = .ok (j, rest) ∧
        add s key j = some s' := by
  constructor
  · intro hm
    unfold member at hm
    cases hr : read s key with
    | error reason =>
      rw [hr] at hm
      cases hm
    | ok r =>
      rw [hr] at hm
      obtain ⟨_, mid, hcolon, hrest⟩ := bind_eq_ok_iff.1 hm
      obtain ⟨j, hj, hadd⟩ := (h s key mid s' rest).1 ⟨r, hr, hrest⟩
      exact ⟨mid, j, hcolon, hj, hadd⟩
  · rintro ⟨mid, j, hcolon, hj, hadd⟩
    obtain ⟨r, hr, hrest⟩ := (h s key mid s' rest).2 ⟨j, hj, hadd⟩
    rw [member, hr]
    exact bind_eq_ok_iff.2 ⟨(), mid, hcolon, hrest⟩

theorem laterMember?_eq_ok_none_iff :
    laterMember? read s text = .ok (none, rest) ↔ @laterKey? Reason text = .ok (none, rest) := by
  constructor
  · intro h
    obtain ⟨o, mid, hkey, hrest⟩ := bind_eq_ok_iff.1 h
    cases o with
    | none =>
      obtain ⟨-, rfl⟩ := pure_eq_ok_iff.1 hrest
      exact hkey
    | some key => exact absurd hrest (map_ne_ok (by simp))
  · exact fun h => bind_eq_ok_iff.2 ⟨none, rest, h, rfl⟩

theorem laterMember?_eq_ok_some_iff (h : MemberDecodes value read add) :
    laterMember? read s text = .ok (some s', rest) ↔
      ∃ key mid start j, @laterKey? Reason text = .ok (some key, mid) ∧
        @colon Reason mid = .ok ((), start) ∧ value start = .ok (j, rest) ∧
          add s key j = some s' := by
  constructor
  · intro hm
    obtain ⟨o, mid, hkey, hrest⟩ := bind_eq_ok_iff.1 hm
    cases o with
    | none => cases (pure_eq_ok_iff.1 hrest).1
    | some key =>
      obtain ⟨start, j, hcolon, hj, hadd⟩ :=
        (member_eq_ok_iff h).1 ((map_eq_ok_iff (by rintro _ _ ⟨⟩; rfl)).1 hrest)
      exact ⟨key, mid, start, j, hkey, hcolon, hj, hadd⟩
  · rintro ⟨key, mid, start, j, hkey, hcolon, hj, hadd⟩
    refine bind_eq_ok_iff.2 ⟨some key, mid, hkey, ?_⟩
    exact (map_eq_ok_iff (by rintro _ _ ⟨⟩; rfl)).2
      ((member_eq_ok_iff h).2 ⟨start, j, hcolon, hj, hadd⟩)

end Members

variable {value : Reading Reason Json} {read : σ → String → Except Reason (Reading Reason σ)}
  {add : σ → String → Json → Option σ}

/-- The key and the value of a member behind the members before it; none if the object closes. -/
def laterPair? (value : Reading Reason Json) : Reading Reason (Option (String × Json)) := do
  match ← laterKey? with
  | none => return none
  | some key =>
    colon
    return some (key, ← value)

theorem laterPair?_eq_ok_none_iff {text rest : List Char} :
    laterPair? value text = .ok (none, rest) ↔ @laterKey? Reason text = .ok (none, rest) := by
  constructor
  · intro h
    obtain ⟨o, mid, hkey, hrest⟩ := bind_eq_ok_iff.1 h
    cases o with
    | none =>
      obtain ⟨-, rfl⟩ := pure_eq_ok_iff.1 hrest
      exact hkey
    | some key =>
      obtain ⟨_, start, -, hrest⟩ := bind_eq_ok_iff.1 hrest
      exact absurd hrest (map_ne_ok (by simp))
  · exact fun h => bind_eq_ok_iff.2 ⟨none, rest, h, rfl⟩

theorem laterPair?_eq_ok_some_iff {text rest : List Char} {key : String} {j : Json} :
    laterPair? value text = .ok (some (key, j), rest) ↔
      ∃ mid start, @laterKey? Reason text = .ok (some key, mid) ∧
        @colon Reason mid = .ok ((), start) ∧ value start = .ok (j, rest) := by
  constructor
  · intro h
    obtain ⟨o, mid, hkey, hrest⟩ := bind_eq_ok_iff.1 h
    cases o with
    | none => cases (pure_eq_ok_iff.1 hrest).1
    | some key' =>
      obtain ⟨_, start, hcolon, hrest⟩ := bind_eq_ok_iff.1 hrest
      obtain ⟨j', next, hj, hpair⟩ := bind_eq_ok_iff.1 hrest
      obtain ⟨heq, rfl⟩ := pure_eq_ok_iff.1 hpair
      cases heq
      exact ⟨mid, start, hkey, hcolon, hj⟩
  · rintro ⟨mid, start, hkey, hcolon, hj⟩
    refine bind_eq_ok_iff.2 ⟨some key, mid, hkey, bind_eq_ok_iff.2 ⟨(), start, hcolon, ?_⟩⟩
    exact bind_eq_ok_iff.2 ⟨j, rest, hj, rfl⟩

/-- The closing of an object does not depend on what is made of its members. -/
theorem laterMember?_eq_ok_none_iff_laterPair? {s : σ} {text rest : List Char} :
    laterMember? read s text = .ok (none, rest) ↔ laterPair? value text = .ok (none, rest) :=
  laterMember?_eq_ok_none_iff.trans laterPair?_eq_ok_none_iff.symm

theorem laterMember?_decodes (h : MemberDecodes value read add) {s s' : σ} {text rest : List Char} :
    laterMember? read s text = .ok (some s', rest) ↔
      ∃ key j, laterPair? value text = .ok (some (key, j), rest) ∧ add s key j = some s' := by
  simp only [laterMember?_eq_ok_some_iff h, laterPair?_eq_ok_some_iff]
  constructor
  · rintro ⟨key, mid, start, j, hkey, hcolon, hj, hadd⟩
    exact ⟨key, j, ⟨mid, start, hkey, hcolon, hj⟩, hadd⟩
  · rintro ⟨key, j, ⟨mid, start, hkey, hcolon, hj⟩, hadd⟩
    exact ⟨key, mid, start, j, hkey, hcolon, hj, hadd⟩

theorem iterateWithin_laterMember?_decodes (h : MemberDecodes value read add) (fuel : List Char) :
    ∀ (text rest : List Char) (s s' : σ),
      iterateWithin .object (laterMember? read) fuel s text = .ok (s', rest) ↔
        ∃ ms, manyWithin .object (laterPair? value) fuel text = .ok (ms, rest) ∧
          addAll add s ms = some s' := by
  -- round by round, as for items; the state is the one that the members before have made
  induction fuel with
  | nil => simp [iterateWithin, manyWithin, fail]
  | cons c fuel ih =>
    intro text rest s s'
    rw [iterateWithin_cons_eq_ok_iff]
    constructor
    · rintro (⟨hend, rfl⟩ | ⟨next, mid, hmember, hlater⟩)
      · refine ⟨[], manyWithin_cons_eq_ok_iff.2 (.inl ⟨?_, rfl⟩), rfl⟩
        exact laterMember?_eq_ok_none_iff_laterPair?.1 hend
      · obtain ⟨key, j, hpair, hadd⟩ := (laterMember?_decodes h).1 hmember
        obtain ⟨ms, hms, hadds⟩ := (ih _ _ _ _).1 hlater
        refine ⟨(key, j) :: ms, manyWithin_cons_eq_ok_iff.2 (.inr ⟨_, mid, ms, hpair, hms, rfl⟩), ?_⟩
        exact addAll_cons_eq_some_iff.2 ⟨next, hadd, hadds⟩
    · rintro ⟨ms, hrun, hadds⟩
      obtain ⟨hend, rfl⟩ | ⟨⟨key, j⟩, mid, later, hpair, hlater, rfl⟩ :=
        manyWithin_cons_eq_ok_iff.1 hrun
      · cases hadds
        exact .inl ⟨laterMember?_eq_ok_none_iff_laterPair?.2 hend, rfl⟩
      · obtain ⟨next, hadd, hadds⟩ := addAll_cons_eq_some_iff.1 hadds
        refine .inr ⟨next, mid, (laterMember?_decodes h).2 ⟨key, j, hpair, hadd⟩, ?_⟩
        exact (ih _ _ _ _).2 ⟨later, hlater, hadds⟩

/-- The members of an object as they stand, behind its opening bracket. -/
def pairs (value : Reading Reason Json) : Reading Reason (List (String × Json)) := do
  match ← firstKey with
  | none => return []
  | some key =>
    colon
    let first ← value
    return (key, first) :: (← many .object (laterPair? value))

/-- An object closes behind its bracket, or has a first member and later ones. -/
theorem pairs_eq_ok_iff {text rest : List Char} {ms : List (String × Json)} :
    pairs value text = .ok (ms, rest) ↔
      (@firstKey Reason text = .ok (none, rest) ∧ ms = []) ∨
        ∃ key behind start j mid later, @firstKey Reason text = .ok (some key, behind) ∧
          @colon Reason behind = .ok ((), start) ∧ value start = .ok (j, mid) ∧
          manyWithin .object (laterPair? value) mid mid = .ok (later, rest) ∧
          ms = (key, j) :: later := by
  rw [pairs, bind_eq_ok_iff]
  constructor
  · rintro ⟨o, behind, hkey, hrest⟩
    cases o with
    | none =>
      obtain ⟨rfl, rfl⟩ := pure_eq_ok_iff.1 hrest
      exact .inl ⟨hkey, rfl⟩
    | some key =>
      obtain ⟨_, start, hcolon, hrest⟩ := bind_eq_ok_iff.1 hrest
      obtain ⟨j, mid, hj, hrest⟩ := bind_eq_ok_iff.1 hrest
      obtain ⟨later, last, hlater, hcons⟩ := bind_eq_ok_iff.1 hrest
      obtain ⟨rfl, rfl⟩ := pure_eq_ok_iff.1 hcons
      rw [many_apply] at hlater
      exact .inr ⟨key, behind, start, j, mid, later, hkey, hcolon, hj, hlater, rfl⟩
  · rintro (⟨hkey, rfl⟩ | ⟨key, behind, start, j, mid, later, hkey, hcolon, hj, hlater, rfl⟩)
    · exact ⟨none, rest, hkey, rfl⟩
    · rw [← many_apply] at hlater
      refine ⟨some key, behind, hkey, bind_eq_ok_iff.2 ⟨(), start, hcolon, ?_⟩⟩
      exact bind_eq_ok_iff.2 ⟨j, mid, hj, bind_eq_ok_iff.2 ⟨later, rest, hlater, rfl⟩⟩

/-- The same for members that are gathered into a state. -/
theorem members_eq_ok_iff_rounds {text rest : List Char} {s s' : σ} :
    members read s text = .ok (s', rest) ↔
      (@firstKey Reason text = .ok (none, rest) ∧ s = s') ∨
        ∃ key behind next mid, @firstKey Reason text = .ok (some key, behind) ∧
          member read s key behind = .ok (next, mid) ∧
          iterateWithin .object (laterMember? read) mid next mid = .ok (s', rest) := by
  rw [members, bind_eq_ok_iff]
  constructor
  · rintro ⟨o, behind, hkey, hrest⟩
    cases o with
    | none =>
      obtain ⟨rfl, rfl⟩ := pure_eq_ok_iff.1 hrest
      exact .inl ⟨hkey, rfl⟩
    | some key =>
      obtain ⟨next, mid, hmember, hlater⟩ := bind_eq_ok_iff.1 hrest
      exact .inr ⟨key, behind, next, mid, hkey, hmember, hlater⟩
  · rintro (⟨hkey, rfl⟩ | ⟨key, behind, next, mid, hkey, hmember, hlater⟩)
    · exact ⟨none, rest, hkey, rfl⟩
    · exact ⟨some key, behind, hkey, bind_eq_ok_iff.2 ⟨next, mid, hmember, hlater⟩⟩

theorem members_eq_ok_iff (h : MemberDecodes value read add) (text rest : List Char) (s s' : σ) :
    members read s text = .ok (s', rest) ↔
      ∃ ms, pairs value text = .ok (ms, rest) ∧ addAll add s ms = some s' := by
  rw [members_eq_ok_iff_rounds]
  constructor
  · rintro (⟨hnone, rfl⟩ | ⟨key, behind, next, mid, hkey, hmember, hlater⟩)
    · exact ⟨[], pairs_eq_ok_iff.2 (.inl ⟨hnone, rfl⟩), rfl⟩
    · obtain ⟨start, j, hcolon, hj, hadd⟩ := (member_eq_ok_iff h).1 hmember
      obtain ⟨ms, hms, hadds⟩ := (iterateWithin_laterMember?_decodes h _ _ _ _ _).1 hlater
      refine ⟨(key, j) :: ms, pairs_eq_ok_iff.2 (.inr ?_),
        addAll_cons_eq_some_iff.2 ⟨next, hadd, hadds⟩⟩
      exact ⟨key, behind, start, j, mid, ms, hkey, hcolon, hj, hms, rfl⟩
  · rintro ⟨ms, hrun, hadds⟩
    obtain ⟨hnone, rfl⟩ | ⟨key, behind, start, j, mid, later, hkey, hcolon, hj, hlater, rfl⟩ :=
      pairs_eq_ok_iff.1 hrun
    · cases hadds
      exact .inl ⟨hnone, rfl⟩
    · obtain ⟨next, hadd, hadds⟩ := addAll_cons_eq_some_iff.1 hadds
      have hmember := (member_eq_ok_iff h).2 ⟨start, j, hcolon, hj, hadd⟩
      refine .inr ⟨key, behind, next, mid, hkey, hmember, ?_⟩
      exact (iterateWithin_laterMember?_decodes h _ _ _ _ _).2 ⟨later, hlater, hadds⟩

theorem members_collect (value : Reading Reason Json) (text rest : List Char)
    (ms : List (String × Json)) : members (collect value) [] text = .ok (ms, rest) ↔
      pairs value text = .ok (ms, rest) := by
  rw [members_eq_ok_iff (collect_decodes value)]
  simp only [addAll_concat, List.nil_append, Option.some.injEq, exists_eq_right]

/-- What is read of an object is what comes of adding its members one after the other. -/
theorem members_decodes (h : MemberDecodes value read add) (text rest : List Char) (s s' : σ) :
    members read s text = .ok (s', rest) ↔
      ∃ ms, members (collect value) [] text = .ok (ms, rest) ∧ addAll add s ms = some s' := by
  simp only [members_eq_ok_iff h, members_collect]

/-! ### Whole texts -/

/-- A whole text is read if nothing but blanks is left of it. -/
theorem readAll_eq_ok_iff {reading : Reading Reason α} {text : String} {a : α} :
    readAll reading text = .ok a ↔
      ∃ rest, reading text.toList = .ok (a, rest) ∧ rest.dropWhile isBlank = [] := by
  unfold readAll Reading.run
  have hlast : ∀ (b : α) (rest : List Char),
      ((do skipBlanks; return b) : Reading Reason α) rest = .ok (b, rest.dropWhile isBlank) :=
    fun _ _ => rfl
  cases h : reading text.toList with
  | error e =>
    rw [bind_of_error h]
    simp [bind, Except.bind]
  | ok result =>
    obtain ⟨b, rest⟩ := result
    rw [bind_of_ok h, hlast]
    cases hrest : rest.dropWhile isBlank with
    | nil =>
      show Except.ok b = Except.ok a ↔ _
      constructor
      · rintro ⟨⟩
        exact ⟨rest, rfl, hrest⟩
      · rintro ⟨_, ⟨⟩, _⟩
        rfl
    | cons c left =>
      refine ⟨fun hread => (nomatch hread), ?_⟩
      rintro ⟨_, ⟨⟩, hblank⟩
      rw [hrest] at hblank
      exact (nomatch hblank)

end DocTree.Json
