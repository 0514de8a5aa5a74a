import DocTree.Proofs.Walk.PreOrder

/-!
# The nodes that an editing walk calls its hooks on

A walk may be watched: `Editor.watched` has the same hooks, and writes down before every call which
node it is about, a root or an element with its tag.  Watching a walk does not change it
(`Editor.forgetVisits_walk`).

Hooks may put content under the nodes that they meet, and the walk goes into all of it.  As long as
they leave the tags and the walk comes to its end, what was written down is the tree that the walk
leaves, in pre-order: every root and element of it has been called once, and nothing else
(`Editor.visits_walk`).
-/

namespace DocTree

open Docs (Site sites sitesAll)

/-- The tag of an element; none for a root. -/
def Docs.Site.tag? : Site → Option String
  | .root _ => none
  | .element e => some e.tag

@[simp] theorem Docs.Site.tag?_withChildren (site : Site) (nodes : List Node) :
    (site.withChildren nodes).tag? = site.tag? := by
  cases site <;> rfl

namespace Node

/-- The roots and elements from a node down in pre-order, each with its tag. -/
def visits (node : Node) : List (Option String) := (sites node).map Site.tag?

theorem visits_toNode (site : Site) :
    site.toNode.visits = site.tag? :: site.children.flatMap visits := by
  rw [visits, site.sites_toNode, Docs.sitesAll_eq_flatMap, List.map_cons, List.map_flatMap]
  rfl

theorem visits_of_height_eq_zero {node : Node} (h : node.height = 0) : node.visits = [] := by
  cases node with
  | root | element => cases h
  | text | other => rfl

@[simp] theorem height_toNode (site : Site) : site.toNode.height = heightAll site.children + 1 := by
  cases site <;> rfl

end Node

namespace Outcome

variable {σ τ β α : Type}

/-- Changes the state alone. -/
def mapState (f : σ → τ) (o : Outcome σ β α) : Outcome τ β α := ⟨f o.state, o.value, o.stop⟩

theorem mapState_inOrder {f : σ → α → Outcome σ β α} {g : τ → α → Outcome τ β α} {proj : σ → τ}
    (h : ∀ s a, (f s a).mapState proj = g (proj s) a) (s : σ) (items : List α) :
    (inOrder f s items).mapState proj = inOrder g (proj s) items := by
  induction items generalizing s with
  | nil => rfl
  | cons item rest ih =>
    have hitem := h s item
    have hstop : (f s item).stop = (g (proj s) item).stop := congrArg Outcome.stop hitem
    cases hcase : (f s item).stop with
    | some reason =>
      rw [inOrder_cons_of_some hcase, inOrder_cons_of_some (hstop.symm.trans hcase), ← hitem]
      rfl
    | none =>
      have hrest := ih (f s item).state
      rw [inOrder_cons_of_none hcase, inOrder_cons_of_none (hstop.symm.trans hcase), ← hitem]
      exact congrArg (map ((f s item).value :: ·)) hrest

end Outcome

namespace Editor

open Outcome

variable {σ β : Type} {h : Editor σ β}

/-- The same hooks; before a call the node is written down behind those met so far. -/
def watched (h : Editor σ β) : Editor (σ × List (Option String)) β where
  root state r :=
    (h.root state.1 r).mapState fun after => (after, state.2 ++ [(Site.root r).tag?])
  element state e :=
    (h.element state.1 e).mapState fun after => (after, state.2 ++ [(Site.element e).tag?])

theorem call_watched (state : σ × List (Option String)) (site : Site) :
    h.watched.call state site =
      (h.call state.1 site).mapState fun after => (after, state.2 ++ [site.tag?]) := by
  cases site <;> rfl

theorem forgetVisits_walk_toNode {limit : Nat}
    (below : ∀ state node, (h.watched.walk limit state node).mapState Prod.fst =
      h.walk limit state.1 node) (state : σ × List (Option String)) (site : Site) :
    (h.watched.walk (limit + 1) state site.toNode).mapState Prod.fst =
      h.walk (limit + 1) state.1 site.toNode := by
  have hcall := @call_watched _ _ h state site
  cases hstop : (h.call state.1 site).stop with
  | some reason =>
    have hwatched : (h.watched.call state site).stop = some reason := by rw [hcall]; exact hstop
    rw [walk_toNode_of_some hwatched, walk_toNode_of_some hstop, hcall]
    rfl
  | none =>
    have hwatched : (h.watched.call state site).stop = none := by rw [hcall]; exact hstop
    rw [walk_toNode_of_none hwatched, walk_toNode_of_none hstop, hcall]
    have hbelow := mapState_inOrder below ((h.call state.1 site).state, state.2 ++ [site.tag?])
      (h.call state.1 site).value.children
    exact congrArg (map fun children => ((h.call state.1 site).value.withChildren children).toNode)
      hbelow

/-- Watching a walk does not change it. -/
theorem forgetVisits_walk (limit : Nat) (state : σ × List (Option String)) (node : Node) :
    (h.watched.walk limit state node).mapState Prod.fst = h.walk limit state.1 node := by
  induction limit generalizing state node with
  | zero => rfl
  | succ limit ih =>
    cases node with
    | root children extra => exact forgetVisits_walk_toNode ih state (.root ⟨children, extra⟩)
    | element tag properties children extra =>
      exact forgetVisits_walk_toNode ih state (.element ⟨tag, properties, children, extra⟩)
    | text value extra => rfl
    | other kind value children extra => rfl

/-- The hooks leave the tags of elements. -/
def KeepsTags (h : Editor σ β) : Prop :=
  ∀ state site, (h.call state site).value.tag? = site.tag?

/-- The walk of a node has written down the node that it leaves, unless it was stopped or the node is
too deep for it. -/
def WritesDown (h : Editor σ β) (limit : Nat) : Prop :=
  ∀ state node, (h.watched.walk limit state node).stop = none →
    (h.watched.walk limit state node).value.height ≤ limit →
    (h.watched.walk limit state node).state.2 =
      state.2 ++ (h.watched.walk limit state node).value.visits

theorem writesDown_walkAll {limit : Nat} (hnode : h.WritesDown limit)
    (state : σ × List (Option String)) (nodes : List Node)
    (hstop : (h.watched.walkAll limit state nodes).stop = none)
    (hdeep : Node.heightAll (h.watched.walkAll limit state nodes).value ≤ limit) :
    (h.watched.walkAll limit state nodes).state.2 =
      state.2 ++ (h.watched.walkAll limit state nodes).value.flatMap Node.visits := by
  induction nodes generalizing state with
  | nil => exact (List.append_nil _).symm
  | cons node rest ih =>
    rw [walkAll] at hstop hdeep ⊢
    cases hcase : (h.watched.walk limit state node).stop with
    | some reason =>
      rw [inOrder_cons_of_some hcase] at hstop
      cases hstop
    | none =>
      rw [inOrder_cons_of_none hcase] at hstop hdeep ⊢
      simp only [map, Node.heightAll, Nat.max_le] at hstop hdeep ⊢
      rw [List.flatMap_cons, ← List.append_assoc, ← hnode state node hcase hdeep.1]
      exact ih _ hstop hdeep.2

theorem writesDown_toNode (keeps : h.KeepsTags) {limit : Nat} (below : h.WritesDown limit)
    (state : σ × List (Option String)) (site : Site)
    (hstop : (h.watched.walk (limit + 1) state site.toNode).stop = none)
    (hdeep : (h.watched.walk (limit + 1) state site.toNode).value.height ≤ limit + 1) :
    (h.watched.walk (limit + 1) state site.toNode).state.2 =
      state.2 ++ (h.watched.walk (limit + 1) state site.toNode).value.visits := by
  have hcall := @call_watched _ _ h state site
  cases hcase : (h.watched.call state site).stop with
  | some reason =>
    rw [walk_toNode_of_some hcase] at hstop
    exact absurd (hcase.symm.trans hstop) (by simp)
  | none =>
    -- the visit of the site is written down first, and the hook keeps its tag
    have htag : (h.watched.call state site).value.tag? = site.tag? := by
      rw [hcall]
      exact keeps state.1 site
    have hwritten : (h.watched.call state site).state.2 = state.2 ++ [site.tag?] := by
      rw [hcall]
      rfl
    rw [walk_toNode_of_none hcase] at hstop hdeep ⊢
    simp only [map, Node.height_toNode, Site.children_withChildren, Node.visits_toNode,
      Site.tag?_withChildren, htag] at hstop hdeep ⊢
    rw [writesDown_walkAll below _ _ hstop (by omega), hwritten, List.append_assoc]
    rfl

/-- **A walk that comes to its end has called the hooks on every root and element of the tree that it
leaves, once and in pre-order**, whatever the hooks have added to the tree. -/
theorem visits_walk (keeps : h.KeepsTags) (limit : Nat) : h.WritesDown limit := by
  induction limit with
  | zero =>
    intro state node _ hdeep
    rw [Node.visits_of_height_eq_zero (Nat.le_zero.1 hdeep), List.append_nil]
    rfl
  | succ limit ih =>
    intro state node
    cases node with
    | root children extra => exact writesDown_toNode keeps ih state (.root ⟨children, extra⟩)
    | element tag properties children extra =>
      exact writesDown_toNode keeps ih state (.element ⟨tag, properties, children, extra⟩)
    | text value extra => exact fun _ _ => (List.append_nil _).symm
    | other kind value children extra => exact fun _ _ => (List.append_nil _).symm

end Editor

end DocTree
