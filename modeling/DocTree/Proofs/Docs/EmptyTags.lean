import DocTree.Proofs.Docs.Closure
import DocTree.Proofs.Docs.Stopped
import DocTree.Proofs.Node.Written

/-!
# Empty tags

A tree cannot be written if an element with an empty tag stands anywhere in it, also where no walk
goes: in the content of a node of another kind.  Nothing else can go wrong with writing
(`Root.render_eq_error_iff`).

The rules give no tag, take none away and drop no node, so whether a tree can be written is not
changed by them, at whichever sites they have been applied (`tagged_applied_iff`).  A run applies them
at some of the sites also where it is stopped, so what it leaves can be written exactly if the tree
before can (`run_render_error_iff`).
-/

namespace DocTree

open Json

namespace Node

/-! ### Nodes anywhere in a tree -/

/-- The node stands in the tree of another: it is that node, or it stands in the tree of one in its
content. -/
inductive Within (inner : Node) : Node → Prop
  | self : Within inner inner
  | inContent {node child : Node} (hchild : child ∈ node.content) (h : Within inner child) :
    Within inner node

/-- No element in the tree of the node has an empty tag. -/
def Tagged (node : Node) : Prop := ∀ inner : Node, inner.Within node → inner.tag? ≠ some ""

theorem tagged_iff {node : Node} :
    node.Tagged ↔ node.tag? ≠ some "" ∧ ∀ child ∈ node.content, child.Tagged := by
  constructor
  · intro h
    exact ⟨h node .self, fun child hchild inner hinner => h inner (.inContent hchild hinner)⟩
  · rintro ⟨hown, hcontent⟩ inner hinner
    cases hinner with
    | self => exact hown
    | inContent hchild hinner => exact hcontent _ hchild inner hinner

/-! ### What cannot be written -/

/-- A node is written if it is no element with an empty tag and its content is written. -/
theorem toJson_eq (node : Node) : node.toJson =
    if node.tag? = some "" then .error .emptyTag
    else (toJsonAll node.content).map fun items =>
      .object (node.ownMembers items ++ node.extra.members) := by
  cases node with
  | root children extra =>
    rw [toJson, content]
    cases toJsonAll children <;> rfl
  | element tag properties children extra =>
    have hown : (element tag properties children extra).tag? = some "" ↔ tag = "" := Option.some_inj
    rw [toJson, content]
    by_cases htag : tag = ""
    · rw [if_pos htag, if_pos (hown.2 htag)]
    · rw [if_neg htag, if_neg (mt hown.1 htag)]
      cases toJsonAll children with
      | error f => rfl
      | ok items => simp [ownMembers, Node.extra, bind, Except.bind, pure, Except.pure, Except.map]
  | text value extra => rfl
  | other kind value children extra =>
    cases children with
    | none => rfl
    | some children =>
      rw [toJson, content, Option.getD_some]
      cases toJsonAll children <;> rfl

/-- If one of the nodes cannot be written, and none for another reason, they cannot be written. -/
theorem toJsonAll_eq_error {nodes : List Node} {f : NodeFault}
    (hall : ∀ node ∈ nodes, (∃ j, node.toJson = .ok j) ∨ node.toJson = .error f)
    (hsome : ∃ node ∈ nodes, node.toJson = .error f) : toJsonAll nodes = .error f := by
  induction nodes with
  | nil =>
    obtain ⟨node, hnode, -⟩ := hsome
    cases hnode
  | cons node rest ih =>
    obtain ⟨hfirst, hrest⟩ := List.forall_mem_cons.1 hall
    rw [toJsonAll]
    rcases hfirst with ⟨j, hj⟩ | herror
    · -- what goes wrong is further on
      have hlater : ∃ node ∈ rest, node.toJson = .error f := by
        obtain ⟨other, hother, herror⟩ := hsome
        rcases List.mem_cons.1 hother with rfl | hother
        · rw [hj] at herror
          cases herror
        · exact ⟨other, hother, herror⟩
      rw [hj, ih hrest hlater]
      rfl
    · rw [herror]
      rfl

/-- Either all elements in the tree of a node have tags and it can be written, or one has none and
that is what goes wrong. -/
theorem toJson_cases (node : Node) :
    (node.Tagged ∧ ∃ j, node.toJson = .ok j) ∨
      (¬ node.Tagged ∧ node.toJson = .error .emptyTag) := by
  induction node using content_induction with
  | step node ih =>
    rw [toJson_eq]
    by_cases hown : node.tag? = some ""
    · rw [if_pos hown]
      exact .inr ⟨fun h => (tagged_iff.1 h).1 hown, rfl⟩
    · rw [if_neg hown]
      by_cases hcontent : ∀ child ∈ node.content, child.Tagged
      · obtain ⟨items, hitems⟩ := exists_toJsonAll_of_forall fun child hchild =>
          ((ih child hchild).resolve_right fun h => h.1 (hcontent child hchild)).2
        rw [hitems]
        exact .inl ⟨tagged_iff.2 ⟨hown, hcontent⟩, _, rfl⟩
      · have hsome : ∃ child ∈ node.content, child.toJson = .error .emptyTag := by
          push Not at hcontent
          obtain ⟨child, hchild, htag⟩ := hcontent
          exact ⟨child, hchild, ((ih child hchild).resolve_left fun h => htag h.1).2⟩
        have herror := toJsonAll_eq_error (fun child hchild => (ih child hchild).imp (·.2) (·.2)) hsome
        rw [herror]
        exact .inr ⟨fun h => hcontent (tagged_iff.1 h).2, rfl⟩

end Node

/-- What is reported of a tree that cannot be written. -/
def TreeError.emptyTag : TreeError := .invalidJson (.refused (.fault .emptyTag))

namespace Root

/-- A tree cannot be written if an element in it has an empty tag, and for no other reason. -/
theorem render_eq_error_iff {r : Root} {e : TreeError} :
    r.render = .error e ↔ e = .emptyTag ∧ ¬ r.toNode.Tagged := by
  rcases r.toNode.toJson_cases with ⟨htagged, j, hj⟩ | ⟨htagged, herror⟩
  · rw [render_of_toJson hj]
    constructor
    · intro h
      cases h
    · rintro ⟨-, h⟩
      exact absurd htagged h
  · have hrender : r.render = .error .emptyTag := by
      rw [render, Node.render, herror]
      rfl
    rw [hrender, Except.error.injEq]
    constructor
    · intro h
      exact ⟨h.symm, htagged⟩
    · rintro ⟨h, -⟩
      exact h.symm

end Root

namespace Docs

variable {config : Config}

/-! ### The rules keep tags -/

theorem deep_tagged : Deep Node.Tagged where
  text v w x := by rw [Node.tagged_iff, Node.tagged_iff]; rfl
  element t p cs ds x h := by
    rw [Node.tagged_iff, Node.tagged_iff]
    exact and_congr_right fun _ => h

theorem tagged_permalinkAnchor (id : String) : (permalinkAnchor config id).Tagged := by
  have hown : (permalinkAnchor config id).tag? ≠ some "" := by
    show some "a" ≠ some ""
    decide
  refine Node.tagged_iff.2 ⟨hown, fun child hchild => ?_⟩
  cases List.mem_singleton.1 hchild
  exact Node.tagged_iff.2 ⟨nofun, nofun⟩

theorem tagged_contain_iff (node : Node) : (contain config node).Tagged ↔ node.Tagged := by
  unfold contain
  split
  · have hcontent : (tableContainer config node).content = [node] := rfl
    have hdiv : (tableContainer config node).tag? ≠ some "" := by
      show some "div" ≠ some ""
      decide
    rw [Node.tagged_iff, hcontent, and_iff_right hdiv, List.forall_mem_singleton]
  · rfl

mutual

/-- Wherever the rules are applied, no tag gets empty and none that was empty gets another value. -/
theorem tagged_applied_iff (chosen : Nat → Bool) : ∀ (node : Node) (number : Nat),
    (applied config.lenient chosen number node).Tagged ↔ node.Tagged
  | .root children extra, number => by
    have hbelow := tagged_appliedAll_iff chosen children (number + 1)
    rw [applied, @Node.tagged_iff (.root children extra)]
    by_cases hchosen : chosen number = true
    · -- a container has a tag
      rw [if_pos hchosen, containTables_value, Node.tagged_iff]
      refine and_congr Iff.rfl (Iff.trans ?_ hbelow)
      show (∀ child ∈ List.map _ _, _) ↔ _
      rw [List.forall_mem_map]
      exact forall₂_congr fun child _ => tagged_contain_iff child
    · rw [if_neg hchosen, Node.tagged_iff]
      exact and_congr Iff.rfl hbelow
  | .element tag properties children extra, number => by
    have hbelow := tagged_appliedAll_iff chosen children (number + 1)
    rw [applied, @Node.tagged_iff (.element tag properties children extra)]
    by_cases hchosen : chosen number = true
    · rw [if_pos hchosen, ruled_lenient, Node.tagged_iff]
      exact and_congr Iff.rfl ((deep_tagged.restyle tagged_permalinkAnchor _ _).trans hbelow)
    · rw [if_neg hchosen, Node.tagged_iff]
      exact and_congr Iff.rfl hbelow
  | .text .., _ => by rw [applied]
  | .other .., _ => by rw [applied]

theorem tagged_appliedAll_iff (chosen : Nat → Bool) : ∀ (nodes : List Node) (number : Nat),
    (∀ node ∈ appliedAll config.lenient chosen number nodes, node.Tagged) ↔
      ∀ node ∈ nodes, node.Tagged
  | [], _ => by rw [appliedAll]
  | node :: rest, number => by
    rw [appliedAll, List.forall_mem_cons, List.forall_mem_cons, tagged_applied_iff chosen node,
      tagged_appliedAll_iff chosen rest]

end

/-- **A tree cannot be written exactly if an element anywhere in it has an empty tag**, also in the
content of a node of another kind or of a root in the tree, and that is what the error says.  A run of
the rules, to the end or up to where strict mode stops it, neither brings the error about nor removes
it. -/
theorem run_render_error_iff (config : Config) (r : Root) (e : TreeError) :
    (r.render = .error e ↔
      e = .emptyTag ∧ ∃ inner : Node, inner.Within r.toNode ∧ inner.tag? = some "") ∧
    ((run config r).root.render = .error e ↔ r.render = .error e) ∧
    TreeError.emptyTag.message = "Invalid HAST JSON: Element node has an empty tagName" := by
  have hexists : (∃ inner : Node, inner.Within r.toNode ∧ inner.tag? = some "") ↔
      ¬ r.toNode.Tagged := by
    unfold Node.Tagged
    push Not
    rfl
  have hrun : (run config r).root.toNode.Tagged ↔ r.toNode.Tagged := by
    rw [run_root_eq_applied]
    exact tagged_applied_iff _ r.toNode 0
  refine ⟨?_, ?_, by decide⟩
  · rw [hexists]
    exact Root.render_eq_error_iff
  · rw [Root.render_eq_error_iff, Root.render_eq_error_iff, hrun]

end Docs

end DocTree
