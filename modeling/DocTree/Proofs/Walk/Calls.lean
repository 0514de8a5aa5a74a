import DocTree.Proofs.Walk.PreOrder
import DocTree.Walk.Visit

/-!
# A visiting walk as a list of calls

A visitor that leaves the walk over the content alone (`Visitor.reading`) has no say in the order of
the walk.  What is called is then a list that the tree determines (`Node.calls`): a node is entered;
after that comes a text itself, a node of another kind itself with nothing below it, or the content of
a root or an element.  The walk makes the calls of the list one after the other up to the first that
stops it, and it is stopped only so (`Visitor.visitTree_makesCalls`).

The roots and elements that are entered are those on which an editing walk calls its hooks, in the same
order (`Node.filterMap_site?_calls`): the two walks go into the same nodes.
-/

namespace DocTree

open Docs (Site sites sitesAll)

/-! ### The calls of a tree -/

/-- A call of a visitor that leaves the walk over the content alone. -/
inductive Call where
  | enter (node : Node)
  | text (t : TextNode)
  | other (o : OtherNode)

/-- The root or element that is entered, if the call enters one. -/
def Call.site? : Call → Option Site
  | enter (.root children extra) => some (.root ⟨children, extra⟩)
  | enter (.element tag properties children extra) =>
    some (.element ⟨tag, properties, children, extra⟩)
  | _ => none

namespace Node

mutual

/-- The calls for a node. -/
def calls : Node → List Call
  | .root children extra => .enter (.root children extra) :: callsAll children
  | .element tag properties children extra =>
    .enter (.element tag properties children extra) :: callsAll children
  | .text value extra => [.enter (.text value extra), .text ⟨value, extra⟩]
  | .other kind value children extra =>
    [.enter (.other kind value children extra), .other ⟨kind, value, children, extra⟩]

/-- The calls for nodes beside each other. -/
def callsAll : List Node → List Call
  | [] => []
  | node :: rest => node.calls ++ callsAll rest

end

mutual

/-- The roots and elements that are entered are those that an editing walk meets. -/
theorem filterMap_site?_calls : ∀ node : Node, node.calls.filterMap Call.site? = sites node
  | .root children extra => by
    simp only [calls, List.filterMap_cons, Call.site?, filterMap_site?_callsAll children, sites]
  | .element tag properties children extra => by
    simp only [calls, List.filterMap_cons, Call.site?, filterMap_site?_callsAll children, sites]
  | .text .. => rfl
  | .other .. => rfl

theorem filterMap_site?_callsAll : ∀ nodes : List Node,
    (callsAll nodes).filterMap Call.site? = sitesAll nodes
  | [] => rfl
  | node :: rest => by
    rw [callsAll, List.filterMap_append, filterMap_site?_calls node,
      filterMap_site?_callsAll rest, sitesAll]

end

end Node

/-- The calls for a tree: those for its content.  Its root is not entered. -/
def Root.calls (r : Root) : List Call := Node.callsAll r.children

theorem Root.calls_toNode (r : Root) : r.toNode.calls = .enter r.toNode :: r.calls := rfl

theorem Root.sites_toNode_eq_calls (r : Root) :
    sites r.toNode = .root r :: r.calls.filterMap Call.site? := by
  rw [calls, Node.filterMap_site?_callsAll]
  rfl

/-! ### The walk makes the calls -/

namespace Visitor

section Monad

variable {m : Type → Type} [Monad m]

/-- The visitor that leaves the walk over the content of roots and elements alone. -/
def reading (enter : Node → m Unit) (text : TextNode → m Unit) (other : OtherNode → m Unit) :
    Visitor m :=
  { passive with enter, text, other }

/-- Makes a call. -/
def call (v : Visitor m) : Call → m Unit
  | .enter node => v.enter node
  | .text t => v.text t
  | .other o => v.other o

variable [LawfulMonad m] {enter : Node → m Unit} {text : TextNode → m Unit}
  {other : OtherNode → m Unit}

mutual

theorem visit_eq_forM : ∀ node : Node,
    (reading enter text other).visit node = forM node.calls (reading enter text other).call
  | .root children extra => by
    rw [Node.calls, List.forM_cons, ← visitAll_eq_forM children]
    rfl
  | .element tag properties children extra => by
    rw [Node.calls, List.forM_cons, ← visitAll_eq_forM children]
    rfl
  | .text value extra => by
    rw [Node.calls, List.forM_cons, List.forM_cons, List.forM_nil, bind_pure_unit]
    rfl
  | .other kind value children extra => by
    rw [Node.calls, List.forM_cons, List.forM_cons, List.forM_nil, bind_pure_unit]
    rfl

theorem visitAll_eq_forM : ∀ nodes : List Node,
    (reading enter text other).visitAll nodes =
      forM (Node.callsAll nodes) (reading enter text other).call
  | [] => rfl
  | node :: rest => by
    rw [visitAll, Node.callsAll, List.forM_append, visit_eq_forM node, visitAll_eq_forM rest]

end

theorem visitTree_eq_forM (r : Root) :
    (reading enter text other).visitTree r = forM r.calls (reading enter text other).call :=
  visitAll_eq_forM r.children

end Monad

/-! ### What a walk comes to -/

section Run

variable {σ : Type}

/-- The calls are made one after the other without a stop and take the state from the first to the
last. -/
inductive Makes (v : Visitor (ExceptT Unit (StateM σ))) : σ → List Call → σ → Prop
  | none (s : σ) : Makes v s [] s
  | next {s t u : σ} {c : Call} {rest : List Call} (made : (v.call c).run.run s = (.ok (), t))
    (later : Makes v t rest u) : Makes v s (c :: rest) u

/-- One of the calls stops: those before it are made, and none behind it is. -/
def Stops (v : Visitor (ExceptT Unit (StateM σ))) (s : σ) (calls : List Call) (t : σ) : Prop :=
  ∃ before c after u, calls = before ++ c :: after ∧ v.Makes s before u ∧
    (v.call c).run.run u = (.error (), t)

/-- The walk makes the calls in order up to the first that stops, and ends as that leaves it. -/
def MakesCalls (v : Visitor (ExceptT Unit (StateM σ))) (calls : List Call)
    (walk : ExceptT Unit (StateM σ) Unit) : Prop :=
  ∀ s t : σ, (walk.run.run s = (.ok (), t) ↔ v.Makes s calls t) ∧
    (walk.run.run s = (.error (), t) ↔ v.Stops s calls t)

variable {v : Visitor (ExceptT Unit (StateM σ))} {s t : σ} {c : Call} {rest : List Call}

theorem makes_cons_iff :
    v.Makes s (c :: rest) t ↔ ∃ u, (v.call c).run.run s = (.ok (), u) ∧ v.Makes u rest t := by
  constructor
  · rintro (_ | ⟨made, later⟩)
    exact ⟨_, made, later⟩
  · rintro ⟨u, made, later⟩
    exact .next made later

theorem stops_cons_iff :
    v.Stops s (c :: rest) t ↔ (v.call c).run.run s = (.error (), t) ∨
      ∃ u, (v.call c).run.run s = (.ok (), u) ∧ v.Stops u rest t := by
  constructor
  · rintro ⟨_ | ⟨first, before⟩, last, after, u, hcalls, hbefore, hlast⟩
    · cases hcalls
      cases hbefore
      exact .inl hlast
    · cases hcalls
      obtain ⟨next, hfirst, hbefore⟩ := makes_cons_iff.1 hbefore
      exact .inr ⟨next, hfirst, before, last, after, u, rfl, hbefore, hlast⟩
  · rintro (stopped | ⟨next, made, before, last, after, u, rfl, hbefore, hlast⟩)
    · exact ⟨[], c, rest, s, rfl, .none s, stopped⟩
    · exact ⟨c :: before, last, after, u, rfl, .next made hbefore, hlast⟩

theorem run_forM_cons_of_ok (made : (v.call c).run.run s = (.ok (), t)) (rest : List Call) :
    (forM (c :: rest) v.call).run.run s = (forM rest v.call).run.run t := by
  rw [List.forM_cons, ExceptT.run_bind, StateT.run_bind, made]
  rfl

theorem run_forM_cons_of_error (stopped : (v.call c).run.run s = (.error (), t))
    (rest : List Call) : (forM (c :: rest) v.call).run.run s = (.error (), t) := by
  rw [List.forM_cons, ExceptT.run_bind, StateT.run_bind, stopped]
  rfl

theorem makesCalls_nil : v.MakesCalls [] (forM [] v.call) := by
  refine fun s t => ⟨⟨fun h => ?_, fun h => ?_⟩, ⟨fun h => ?_, fun h => ?_⟩⟩
  · cases h
    exact .none s
  · cases h
    rfl
  · cases h
  · obtain ⟨before, c, after, u, hcalls, -⟩ := h
    simp at hcalls

theorem makesCalls_cons (later : v.MakesCalls rest (forM rest v.call)) :
    v.MakesCalls (c :: rest) (forM (c :: rest) v.call) := by
  intro s t
  rw [makes_cons_iff, stops_cons_iff]
  rcases hcall : (v.call c).run.run s with ⟨⟨⟩ | ⟨⟩, next⟩
  · rw [run_forM_cons_of_error hcall]
    refine ⟨⟨nofun, nofun⟩, ⟨.inl, ?_⟩⟩
    rintro (stopped | ⟨_, ⟨⟩, _⟩)
    exact stopped
  · rw [run_forM_cons_of_ok hcall, (later next t).1, (later next t).2]
    refine ⟨⟨fun h => ⟨next, rfl, h⟩, ?_⟩, ⟨fun h => .inr ⟨next, rfl, h⟩, ?_⟩⟩
    · rintro ⟨_, ⟨⟩, made⟩
      exact made
    · rintro (⟨⟨⟩⟩ | ⟨_, ⟨⟩, stopped⟩)
      exact stopped

/-- Doing the calls of a list in order makes them up to the first that stops. -/
theorem makesCalls_forM (calls : List Call) : v.MakesCalls calls (forM calls v.call) := by
  induction calls with
  | nil => exact makesCalls_nil
  | cons c rest ih => exact makesCalls_cons ih

end Run

end Visitor

/-! ### The editing walk meets the same roots and elements -/

theorem Outcome.value_inOrder_of_unchanged {σ β α : Type} {f : σ → α → Outcome σ β α}
    (h : ∀ s item, (f s item).value = item) (s : σ) (items : List α) :
    (inOrder f s items).value = items := by
  induction items generalizing s with
  | nil => rfl
  | cons item rest ih =>
    cases hstop : (f s item).stop with
    | none => rw [inOrder_cons_of_none hstop, map, h, ih]
    | some reason => rw [inOrder_cons_of_some hstop, h]

namespace Editor

open Outcome

variable {σ β : Type} {h : Editor σ β}

/-- The hooks leave nodes as they are; they may change the state and stop the walk. -/
def ChangesNothing (h : Editor σ β) : Prop := ∀ state site, (h.call state site).value = site

/-- Hooks that change nothing are called on the root, and then on what a visitor enters. -/
theorem walkTree_of_changesNothing (changes : h.ChangesNothing) {limit : Nat} {r : Root}
    (deep : Node.heightAll r.children ≤ limit) (state : σ) :
    let walked := h.walkTree limit state r
    let called := inOrder h.call state (.root r :: r.calls.filterMap Call.site?)
    walked.stop = called.stop ∧ walked.state = called.state ∧ walked.value = r := by
  intro walked called
  have keeps : h.KeepsContent := fun state site => by rw [changes]
  have hfold : (h.walk (limit + 1) state r.toNode).map Node.bareSites =
      called.map (List.map Site.bare) := by
    simp only [called, ← r.sites_toNode_eq_calls]
    exact map_bareSites_walk keeps r.toNode (limit + 1) state
      (by simp only [Root.toNode, Node.height]; omega)
  -- neither the own fields nor the rest of the tree are others
  have hbare : walked.value.toNode.bareSites = r.toNode.bareSites := by
    have hvalue := congrArg Outcome.value hfold
    simp only [called, map, value_inOrder_of_unchanged changes] at hvalue
    rw [← r.sites_toNode_eq_calls] at hvalue
    exact hvalue
  have hframe : walked.value.toNode.frame = r.toNode.frame :=
    frame_walk keeps (limit + 1) state r.toNode
  exact ⟨congrArg Outcome.stop hfold, congrArg Outcome.state hfold,
    Root.toNode_injective (Node.eq_of_frame_of_bare _ _ hframe hbare)⟩

end Editor

namespace Visitor

variable {σ : Type}

/-- **A visiting walk that leaves the content of nodes to the walk makes the calls of the tree in
pre-order, up to the first that stops it.**  A walk from a root makes the calls for its content; from
the same root as a node it enters the root first.  The roots and elements that are entered are those
on which an editing walk whose hooks change nothing calls them, in the same order, once it has called
the hook on the root at the top. -/
theorem visitTree_makesCalls (enter : Node → ExceptT Unit (StateM σ) Unit)
    (text : TextNode → ExceptT Unit (StateM σ) Unit)
    (other : OtherNode → ExceptT Unit (StateM σ) Unit) (r : Root) :
    let v := reading enter text other
    v.MakesCalls r.calls (v.visitTree r) ∧
    (∀ node : Node, v.MakesCalls node.calls (v.visit node)) ∧
    r.toNode.calls = .enter r.toNode :: r.calls ∧
    ∀ {τ β : Type} (h : Editor τ β), h.ChangesNothing → ∀ limit,
      Node.heightAll r.children ≤ limit → ∀ state : τ,
        let walked := h.walkTree limit state r
        let called := Outcome.inOrder h.call state (.root r :: r.calls.filterMap Call.site?)
        walked.stop = called.stop ∧ walked.state = called.state ∧ walked.value = r := by
  intro v
  refine ⟨?_, fun node => ?_, r.calls_toNode, fun h changes limit deep state => ?_⟩
  · rw [visitTree_eq_forM]
    exact makesCalls_forM r.calls
  · rw [visit_eq_forM]
    exact makesCalls_forM node.calls
  · exact Editor.walkTree_of_changesNothing changes deep state

/-- Notes the kind of every node, and texts and nodes of other kinds once more; stops at a text. -/
def sampleReading (last : String) : Visitor (ExceptT Unit (StateM (List String))) :=
  reading (fun node => modify (· ++ [node.kind]))
    (fun t => do
      modify (· ++ [t.value])
      if t.value = last then throw ())
    (fun o => modify (· ++ [o.kind]))

/-- Notes the tags of elements and changes nothing. -/
def sampleTagNoting : Editor (List String) Unit where
  root state r := .unchanged (state ++ ["root"]) r
  element state e := .unchanged (state ++ [e.tag]) e

/-- A node of another kind with content, a root inside the tree, and texts. -/
def sampleMixed : Root where
  children :=
    [.element "a" none [.ofText "x"] .empty,
      .other "raw" none (some [.element "hidden" none [] .empty]) .empty,
      .root [.element "b" none [.ofText "y"] .empty, .element "c" none [] .empty] .empty]
  extra := .empty

/-- The visitor stops at the second text and does not come to the last element; the editing walk meets
the elements that the full list of calls enters, and nothing below the node of another kind. -/
theorem visitTree_makesCalls_sampleMixed :
    sampleTagNoting.ChangesNothing ∧ Node.heightAll sampleMixed.children ≤ 2 ∧
    ((sampleReading "y").visitTree sampleMixed).run.run [] =
      (.error (), ["element", "text", "x", "raw", "raw", "root", "element", "text", "y"]) ∧
    (sampleTagNoting.walkTree 2 [] sampleMixed).state = ["root", "a", "root", "b", "c"] := by
  have changes : sampleTagNoting.ChangesNothing := fun state site => by cases site <;> rfl
  have deep : Node.heightAll sampleMixed.children ≤ 2 := by decide
  obtain ⟨hwalk, -, -, hmet⟩ := visitTree_makesCalls (sampleReading "y").enter
    (sampleReading "y").text (sampleReading "y").other sampleMixed
  refine ⟨changes, deep, (hwalk [] _).2.2 ?_, (hmet sampleTagNoting changes 2 deep []).2.1⟩
  exact ⟨sampleMixed.calls.take 8, _, sampleMixed.calls.drop 9, _, rfl,
    .next rfl (.next rfl (.next rfl (.next rfl (.next rfl (.next rfl (.next rfl (.next rfl
      (.none _)))))))), rfl⟩

end Visitor

end DocTree
