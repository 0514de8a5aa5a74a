import DocTree.Proofs.Docs.Sites

/-!
# An editing walk as a fold in pre-order

If the hooks of a walk leave the content of nodes as it is, the walk is a fold: they are called on the
roots and elements of the tree (`Docs.sites`), each before its content, the state goes from one call to
the next, and the first stop ends it.  `Editor.call` is one such call and `Outcome.inOrder` the fold.

A call gives a node its own fields, which are all of it but the content (`Site.bare`).  What a walk
cannot change is the rest of the tree (`Node.frame`): which nodes stand where, every text, and every
node of another kind with all it holds.  The two together are the whole tree
(`Node.eq_of_frame_of_bare`), so the tree that a walk leaves is known exactly
(`Editor.walkTree_eq_inOrder`).
-/

namespace DocTree

open Docs (Site sites sitesAll)

/-! ### The fold -/

namespace Outcome

variable {σ β α γ : Type}

/-- What is walked may be wrapped before or after. -/
theorem andThen_map {wrap : α → γ} {f : σ → α → Outcome σ β α} {g : σ → γ → Outcome σ β γ}
    (h : ∀ s a, (f s a).map wrap = g s (wrap a)) (o : Outcome σ β α) :
    (o.andThen f).map wrap = (o.map wrap).andThen g := by
  obtain ⟨state, value, stop⟩ := o
  cases stop with
  | none => exact h state value
  | some reason => rfl

variable {f : σ → α → Outcome σ β α} {s : σ} {item : α}

theorem inOrder_cons_of_none (h : (f s item).stop = none) (rest : List α) :
    inOrder f s (item :: rest) = (inOrder f (f s item).state rest).map ((f s item).value :: ·) := by
  simp only [inOrder, h]

theorem inOrder_cons_of_some {reason : β} (h : (f s item).stop = some reason) (rest : List α) :
    inOrder f s (item :: rest) = ⟨(f s item).state, (f s item).value :: rest, some reason⟩ := by
  simp only [inOrder, h]

theorem inOrder_append_of_none {before : List α} (h : (inOrder f s before).stop = none)
    (after : List α) : inOrder f s (before ++ after) =
      (inOrder f (inOrder f s before).state after).map ((inOrder f s before).value ++ ·) := by
  induction before generalizing s with
  | nil => rfl
  | cons item before ih =>
    cases hitem : (f s item).stop with
    | some reason =>
      rw [inOrder_cons_of_some hitem] at h
      cases h
    | none =>
      rw [inOrder_cons_of_none hitem] at h ⊢
      rw [List.cons_append, inOrder_cons_of_none hitem, ih h]
      rfl

theorem inOrder_append_of_some {before : List α} {reason : β}
    (h : (inOrder f s before).stop = some reason) (after : List α) :
    inOrder f s (before ++ after) = (inOrder f s before).map (· ++ after) := by
  induction before generalizing s with
  | nil => cases h
  | cons item before ih =>
    cases hitem : (f s item).stop with
    | some found =>
      rw [List.cons_append, inOrder_cons_of_some hitem, inOrder_cons_of_some hitem]
      rfl
    | none =>
      rw [inOrder_cons_of_none hitem] at h ⊢
      rw [List.cons_append, inOrder_cons_of_none hitem, ih h]
      rfl

/-- A stop comes from one item, which is the last to be handled. -/
theorem exists_of_stop_inOrder {items : List α} {reason : β}
    (h : (inOrder f s items).stop = some reason) : ∃ before item after,
      items = before ++ item :: after ∧ (inOrder f s before).stop = none ∧
      (f (inOrder f s before).state item).stop = some reason ∧
      inOrder f s items = ⟨(f (inOrder f s before).state item).state,
        (inOrder f s before).value ++ (f (inOrder f s before).state item).value :: after,
        some reason⟩ := by
  induction items generalizing s with
  | nil => cases h
  | cons item rest ih =>
    cases hitem : (f s item).stop with
    | some found =>
      rw [inOrder_cons_of_some hitem] at h ⊢
      obtain rfl : found = reason := Option.some.inj h
      exact ⟨[], item, rest, rfl, rfl, hitem, rfl⟩
    | none =>
      rw [inOrder_cons_of_none hitem] at h ⊢
      obtain ⟨before, last, after, rfl, hbefore, hlast, heq⟩ := ih h
      refine ⟨item :: before, last, after, rfl, ?_⟩
      rw [inOrder_cons_of_none hitem, heq]
      exact ⟨hbefore, hlast, rfl⟩

end Outcome

/-! ### Sites as nodes -/

namespace Docs.Site

/-- The root or element as a node. -/
def toNode : Site → Node
  | root r => r.toNode
  | element e => e.toNode

/-- The content of a root or an element. -/
def children : Site → List Node
  | root r => r.children
  | element e => e.children

/-- A root or an element with other content. -/
def withChildren : Site → List Node → Site
  | root r, children => .root { r with children }
  | element e, children => .element { e with children }

/-- A root or an element without its content: its own fields. -/
def bare (site : Site) : Site := site.withChildren []

theorem sites_toNode (site : Site) : sites site.toNode = site :: sitesAll site.children := by
  cases site <;> rfl

@[simp] theorem bare_withChildren (site : Site) (nodes : List Node) :
    (site.withChildren nodes).bare = site.bare := by
  cases site <;> rfl

@[simp] theorem children_withChildren (site : Site) (nodes : List Node) :
    (site.withChildren nodes).children = nodes := by
  cases site <;> rfl

@[simp] theorem withChildren_children (site : Site) : site.withChildren site.children = site := by
  cases site <;> rfl

end Docs.Site

namespace Node

/-- The own fields of the roots and elements from a node down, in pre-order. -/
def bareSites (node : Node) : List Site := (sites node).map Site.bare

/-- The same for nodes beside each other. -/
def bareSitesAll (nodes : List Node) : List Site := (sitesAll nodes).map Site.bare

theorem bareSites_toNode (site : Site) :
    site.toNode.bareSites = site.bare :: bareSitesAll site.children := by
  rw [bareSites, site.sites_toNode]
  rfl

theorem bareSites_toNode_withChildren (site : Site) (nodes : List Node) :
    (site.withChildren nodes).toNode.bareSites = site.bare :: bareSitesAll nodes := by
  rw [bareSites_toNode, site.bare_withChildren, site.children_withChildren]

@[simp] theorem bareSitesAll_cons (node : Node) (rest : List Node) :
    bareSitesAll (node :: rest) = node.bareSites ++ bareSitesAll rest :=
  List.map_append

mutual

/-- The node without the own fields of roots and elements: which nodes stand where, the texts, and the
nodes of other kinds. -/
def frame : Node → Node
  | root children _ => .root (frameAll children) .empty
  | element _ _ children _ => .element "" none (frameAll children) .empty
  | text value extra => .text value extra
  | other kind value children extra => .other kind value children extra

/-- The same for nodes beside each other. -/
def frameAll : List Node → List Node
  | [] => []
  | node :: rest => node.frame :: frameAll rest

end

theorem frame_toNode_congr (site : Site) {ms ns : List Node} (h : frameAll ms = frameAll ns) :
    (site.withChildren ms).toNode.frame = (site.withChildren ns).toNode.frame := by
  cases site with
  | root r => exact congrArg (root · .empty) h
  | element e => exact congrArg (element "" none · .empty) h

/-! ### Own fields and frame are the whole tree -/

mutual

theorem length_bareSites_of_frame : ∀ m n : Node, m.frame = n.frame →
    m.bareSites.length = n.bareSites.length
  | .root cs x, n, h => by
    cases n with
    | root ds y =>
      injection h with hall
      exact congrArg (· + 1) (length_bareSitesAll_of_frameAll cs ds hall)
    | _ => cases h
  | .element _ _ cs _, n, h => by
    cases n with
    | element _ _ ds _ =>
      injection h with _ _ hall
      exact congrArg (· + 1) (length_bareSitesAll_of_frameAll cs ds hall)
    | _ => cases h
  | .text _ _, n, h => by
    cases n with
    | text => rfl
    | _ => cases h
  | .other .., n, h => by
    cases n with
    | other => rfl
    | _ => cases h

theorem length_bareSitesAll_of_frameAll : ∀ ms ns : List Node, frameAll ms = frameAll ns →
    (bareSitesAll ms).length = (bareSitesAll ns).length
  | [], ns, h => by
    cases ns with
    | nil => rfl
    | cons => cases h
  | m :: ms, ns, h => by
    cases ns with
    | nil => cases h
    | cons n ns =>
      injection h with hnode hall
      rw [bareSitesAll_cons, bareSitesAll_cons, List.length_append, List.length_append,
        length_bareSites_of_frame m n hnode, length_bareSitesAll_of_frameAll ms ns hall]

end

mutual

/-- A node is its frame and the own fields in it. -/
theorem eq_of_frame_of_bare : ∀ m n : Node, m.frame = n.frame → m.bareSites = n.bareSites → m = n
  -- a frame tells the constructor and what is below, and the first bare site the own fields
  | .root cs x, n, h, hbare => by
    cases n with
    | root ds y =>
      injection h with hall
      injection hbare with hown hbelow
      obtain ⟨⟩ := hown
      rw [eq_of_frameAll_of_bare cs ds hall hbelow]
    | _ => cases h
  | .element _ _ cs _, n, h, hbare => by
    cases n with
    | element _ _ ds _ =>
      injection h with _ _ hall
      injection hbare with hown hbelow
      obtain ⟨⟩ := hown
      rw [eq_of_frameAll_of_bare cs ds hall hbelow]
    | _ => cases h
  | .text _ _, n, h, _ => by
    cases n with
    | text => exact h
    | _ => cases h
  | .other .., n, h, _ => by
    cases n with
    | other => exact h
    | _ => cases h

theorem eq_of_frameAll_of_bare : ∀ ms ns : List Node, frameAll ms = frameAll ns →
    bareSitesAll ms = bareSitesAll ns → ms = ns
  | [], ns, h, _ => by
    cases ns with
    | nil => rfl
    | cons => cases h
  | m :: ms, ns, h, hbare => by
    cases ns with
    | nil => cases h
    | cons n ns =>
      injection h with hnode hall
      rw [bareSitesAll_cons, bareSitesAll_cons] at hbare
      obtain ⟨hown, hbelow⟩ := List.append_inj hbare (length_bareSites_of_frame m n hnode)
      rw [eq_of_frame_of_bare m n hnode hown, eq_of_frameAll_of_bare ms ns hall hbelow]

end

end Node

/-! ### Calls -/

namespace Editor

open Outcome

variable {σ β : Type} {h : Editor σ β}

/-- Calls the hook for a root or an element. -/
def call (h : Editor σ β) (state : σ) : Site → Outcome σ β Site
  | .root r => (h.root state r).map .root
  | .element e => (h.element state e).map .element

/-- The hooks leave the content of nodes as it is. -/
def KeepsContent (h : Editor σ β) : Prop :=
  ∀ state site, (h.call state site).value.children = site.children

/-- A walk calls the hook, and goes on into the content unless that stops it. -/
theorem walk_toNode (limit : Nat) (state : σ) (site : Site) :
    h.walk (limit + 1) state site.toNode =
      ((h.call state site).andThen fun state site =>
        (h.walkAll limit state site.children).map site.withChildren).map Site.toNode := by
  cases site with
  | root r =>
    have hwrap := @andThen_map σ β Root Site .root
      (fun state r => (h.walkAll limit state r.children).map fun children => { r with children })
      (fun state site => (h.walkAll limit state site.children).map site.withChildren)
      (fun _ _ => rfl) (h.root state r)
    exact congrArg (map Site.toNode) hwrap
  | element e =>
    have hwrap := @andThen_map σ β Element Site .element
      (fun state e => (h.walkAll limit state e.children).map fun children => { e with children })
      (fun state site => (h.walkAll limit state site.children).map site.withChildren)
      (fun _ _ => rfl) (h.element state e)
    exact congrArg (map Site.toNode) hwrap

theorem walk_toNode_of_some {limit : Nat} {state : σ} {site : Site} {reason : β}
    (hstop : (h.call state site).stop = some reason) :
    h.walk (limit + 1) state site.toNode = (h.call state site).map Site.toNode := by
  rw [walk_toNode, andThen, hstop]

theorem walk_toNode_of_none {limit : Nat} {state : σ} {site : Site}
    (hstop : (h.call state site).stop = none) :
    h.walk (limit + 1) state site.toNode =
      (h.walkAll limit (h.call state site).state (h.call state site).value.children).map
        fun children => ((h.call state site).value.withChildren children).toNode := by
  rw [walk_toNode, andThen, hstop]
  rfl

/-! ### The walk is the fold -/

theorem map_bareSites_of_site (keeps : h.KeepsContent) (site : Site) {limit : Nat}
    (below : ∀ state, (h.walkAll limit state site.children).map Node.bareSitesAll =
      (inOrder h.call state (sitesAll site.children)).map (List.map Site.bare)) (state : σ) :
    (h.walk (limit + 1) state site.toNode).map Node.bareSites =
      (inOrder h.call state (sites site.toNode)).map (List.map Site.bare) := by
  rw [site.sites_toNode]
  cases hstop : (h.call state site).stop with
  | some reason =>
    rw [walk_toNode_of_some hstop, inOrder_cons_of_some hstop]
    simp only [map, hstop, Node.bareSites_toNode, keeps state site, List.map_cons]
    rfl
  | none =>
    rw [walk_toNode_of_none hstop, inOrder_cons_of_none hstop, keeps state site]
    simp only [map_map, Function.comp_def, Node.bareSites_toNode_withChildren, List.map_cons]
    exact congrArg (Outcome.map _) (below (h.call state site).state)

mutual

/-- What a walk of a node leaves of the own fields, and where it stops. -/
theorem map_bareSites_walk (keeps : h.KeepsContent) : ∀ (node : Node) (limit : Nat) (state : σ),
    node.height ≤ limit →
      (h.walk limit state node).map Node.bareSites =
        (inOrder h.call state (sites node)).map (List.map Site.bare)
  | .root children extra, limit, state, hlimit => by
    obtain ⟨limit, rfl⟩ : ∃ l, limit = l + 1 :=
      ⟨limit - 1, by simp only [Node.height] at hlimit; omega⟩
    have hbelow := fun state => map_bareSitesAll_walkAll keeps children limit state
      (by simp only [Node.height] at hlimit; omega)
    exact map_bareSites_of_site keeps (.root ⟨children, extra⟩) hbelow state
  | .element tag properties children extra, limit, state, hlimit => by
    obtain ⟨limit, rfl⟩ : ∃ l, limit = l + 1 :=
      ⟨limit - 1, by simp only [Node.height] at hlimit; omega⟩
    have hbelow := fun state => map_bareSitesAll_walkAll keeps children limit state
      (by simp only [Node.height] at hlimit; omega)
    exact map_bareSites_of_site keeps (.element ⟨tag, properties, children, extra⟩) hbelow state
  | .text .., limit, _, _ => by cases limit <;> rfl
  | .other .., limit, _, _ => by cases limit <;> rfl

theorem map_bareSitesAll_walkAll (keeps : h.KeepsContent) :
    ∀ (nodes : List Node) (limit : Nat) (state : σ), Node.heightAll nodes ≤ limit →
      (h.walkAll limit state nodes).map Node.bareSitesAll =
        (inOrder h.call state (sitesAll nodes)).map (List.map Site.bare)
  | [], _, _, _ => rfl
  | node :: rest, limit, state, hlimit => by
    simp only [Node.heightAll] at hlimit
    have hnode := map_bareSites_walk keeps node limit state (by omega)
    have hrest := map_bareSitesAll_walkAll keeps rest limit (h.walk limit state node).state (by omega)
    have hstate : (h.walk limit state node).state = (inOrder h.call state (sites node)).state :=
      congrArg Outcome.state hnode
    have hvalue : (h.walk limit state node).value.bareSites =
        (inOrder h.call state (sites node)).value.map Site.bare := congrArg Outcome.value hnode
    have hstop : (h.walk limit state node).stop = (inOrder h.call state (sites node)).stop :=
      congrArg Outcome.stop hnode
    rw [walkAll, sitesAll]
    -- where the walk stops in the first node, the fold stops in its sites
    cases hcase : (h.walk limit state node).stop with
    | some reason =>
      rw [inOrder_cons_of_some hcase, inOrder_append_of_some (hstop.symm.trans hcase)]
      simp only [map, Node.bareSitesAll_cons, hvalue, hstate, List.map_append, ← hstop, hcase]
      rfl
    | none =>
      rw [inOrder_cons_of_none hcase, inOrder_append_of_none (hstop.symm.trans hcase), ← hstate]
      simp only [map_map, Function.comp_def, Node.bareSitesAll_cons, hvalue, List.map_append]
      exact congrArg (Outcome.map _) hrest

end

/-! ### What stays -/

theorem frameAll_inOrder {f : σ → Node → Outcome σ β Node}
    (hf : ∀ state node, (f state node).value.frame = node.frame) (state : σ) (nodes : List Node) :
    Node.frameAll (inOrder f state nodes).value = Node.frameAll nodes := by
  induction nodes generalizing state with
  | nil => rfl
  | cons node rest ih =>
    cases hstop : (f state node).stop with
    | none => simp only [inOrder_cons_of_none hstop, map, Node.frameAll, hf, ih]
    | some reason => simp only [inOrder_cons_of_some hstop, Node.frameAll, hf]

/-- No call makes a root of an element, or an element of a root. -/
theorem frame_call (state : σ) (site : Site) (nodes : List Node) :
    ((h.call state site).value.withChildren nodes).toNode.frame =
      (site.withChildren nodes).toNode.frame := by
  cases site <;> rfl

theorem frame_walk_toNode (keeps : h.KeepsContent) {limit : Nat}
    (below : ∀ state node, (h.walk limit state node).value.frame = node.frame) (state : σ)
    (site : Site) : (h.walk (limit + 1) state site.toNode).value.frame = site.toNode.frame := by
  have hcall := fun nodes => @frame_call _ _ h state site nodes
  have hsame : (site.withChildren site.children).toNode = site.toNode :=
    congrArg Site.toNode site.withChildren_children
  cases hstop : (h.call state site).stop with
  | some reason =>
    rw [walk_toNode_of_some hstop, map, ← hsame, ← hcall, ← keeps state site,
      Site.withChildren_children]
  | none =>
    have hall := frameAll_inOrder below (h.call state site).state site.children
    rw [walk_toNode_of_none hstop, keeps state site, map, hcall, ← hsame]
    exact Node.frame_toNode_congr site hall

/-- A walk changes the own fields of roots and elements at most. -/
theorem frame_walk (keeps : h.KeepsContent) (limit : Nat) (state : σ) (node : Node) :
    (h.walk limit state node).value.frame = node.frame := by
  induction limit generalizing state node with
  | zero => rfl
  | succ limit ih =>
    cases node with
    | root children extra => exact frame_walk_toNode keeps ih state (.root ⟨children, extra⟩)
    | element tag properties children extra =>
      exact frame_walk_toNode keeps ih state (.element ⟨tag, properties, children, extra⟩)
    | text value extra => rfl
    | other kind value children extra => rfl

/-! ### Trees -/

/-- **A walk that keeps the content of nodes is a fold in pre-order.**  It stops and ends in the state
as the fold does; the roots and elements of the tree that it leaves have the own fields that the fold
gives them, so those behind a stop have the ones they had; and the rest of the tree stays.  There is no
other such tree. -/
theorem walkTree_eq_inOrder (keeps : h.KeepsContent) {limit : Nat} {r : Root}
    (deep : Node.heightAll r.children ≤ limit) (state : σ) :
    let walked := h.walkTree limit state r
    let called := inOrder h.call state (sites r.toNode)
    walked.stop = called.stop ∧ walked.state = called.state ∧
    (sites walked.value.toNode).map Site.bare = called.value.map Site.bare ∧
    walked.value.toNode.frame = r.toNode.frame ∧
    (∀ other : Root, (sites other.toNode).map Site.bare = called.value.map Site.bare →
      other.toNode.frame = r.toNode.frame → other = walked.value) ∧
    ∀ reason, walked.stop = some reason → ∃ before site after,
      sites r.toNode = before ++ site :: after ∧
      (inOrder h.call state before).stop = none ∧
      (h.call (inOrder h.call state before).state site).stop = some reason ∧
      called.state = (h.call (inOrder h.call state before).state site).state ∧
      called.value = (inOrder h.call state before).value ++
        (h.call (inOrder h.call state before).state site).value :: after := by
  intro walked called
  have heq := map_bareSites_walk keeps r.toNode (limit + 1) state
    (by simp only [Root.toNode, Node.height]; omega)
  have hstop : walked.stop = called.stop := congrArg Outcome.stop heq
  have hbare : walked.value.toNode.bareSites = called.value.map Site.bare :=
    congrArg Outcome.value heq
  have hframe : walked.value.toNode.frame = r.toNode.frame :=
    frame_walk keeps (limit + 1) state r.toNode
  refine ⟨hstop, congrArg Outcome.state heq, hbare, hframe, fun other hother hsame => ?_,
    fun reason hreason => ?_⟩
  · have hnode := Node.eq_of_frame_of_bare other.toNode walked.value.toNode
      (hsame.trans hframe.symm) (hother.trans hbare.symm)
    exact Root.toNode_injective hnode
  · obtain ⟨before, site, after, hsites, hbefore, hsite, hcalled⟩ :=
      exists_of_stop_inOrder (hstop.symm.trans hreason)
    exact ⟨before, site, after, hsites, hbefore, hsite, congrArg Outcome.state hcalled,
      congrArg Outcome.value hcalled⟩

/-- Renames every element and stops at a tag; the state has the tags that were met. -/
def sampleRenaming (last : String) : Editor (List String) String where
  root state r := .unchanged state r
  element state e :=
    ⟨state ++ [e.tag], { e with tag := "met" }, if e.tag = last then some e.tag else none⟩

/-- Elements in each other and beside each other, one of them below a node of another kind. -/
def sampleNest : Root where
  children :=
    [.element "a" none [.ofText "x", .element "b" none [.element "c" none [] .empty] .empty] .empty,
      .other "raw" none (some [.element "d" none [] .empty]) .empty,
      .element "e" none [] .empty]
  extra := .empty

/-- The walk stops at the inner element: what it holds and what stands behind it keeps its tag. -/
theorem walkTree_eq_inOrder_sampleNest :
    let walked := (sampleRenaming "b").walkTree 3 [] sampleNest
    walked.stop = some "b" ∧ walked.state = ["a", "b"] ∧
    (sites walked.value.toNode).map Site.bare =
      .root ⟨[], .empty⟩ :: ["met", "met", "c", "e"].map fun tag =>
        .element ⟨tag, none, [], .empty⟩ := by
  have keeps : (sampleRenaming "b").KeepsContent := fun state site => by cases site <;> rfl
  obtain ⟨hstop, hstate, hbare, -⟩ :=
    @walkTree_eq_inOrder _ _ _ keeps 3 sampleNest (by decide) []
  exact ⟨hstop.trans rfl, hstate.trans rfl, hbare.trans rfl⟩

end Editor

end DocTree
