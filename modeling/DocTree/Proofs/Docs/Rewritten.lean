import DocTree.Proofs.Docs.Sweep

/-!
# The finished tree

`rewritten` is what a walk with the rules makes of a node when nothing stops it: content first, then
the node itself.  It asks neither for counts nor for faults, so what holds of the tree after a run is
proved by recursion on the tree before (`sweep_value`, `run_root_of_not_failed`).
-/

namespace DocTree.Docs

mutual

/-- The node as a walk leaves it that comes to its end. -/
def rewritten (config : Config) : Node → Node
  | .root children extra => .root ((rewrittenAll config children).map (contain config)) extra
  | .element tag properties children extra =>
    (restyled config ⟨tag, properties, children, extra⟩ (rewrittenAll config children)).toNode
  | .text value extra => .text value extra
  | .other kind value children extra => .other kind value children extra

/-- The nodes as a walk leaves them that comes to its end. -/
def rewrittenAll (config : Config) : List Node → List Node
  | [] => []
  | node :: rest => rewritten config node :: rewrittenAll config rest

end

variable {config : Config}

@[simp] theorem text?_rewritten (node : Node) : (rewritten config node).text? = node.text? := by
  cases node <;> rw [rewritten] <;> rfl

theorem map_text?_rewrittenAll (nodes : List Node) :
    (rewrittenAll config nodes).map Node.text? = nodes.map Node.text? := by
  induction nodes with
  | nil => rfl
  | cons node rest ih => simp [rewrittenAll, text?_rewritten, ih]

theorem face_rewritten (node : Node) : (rewritten config node).face = node.face := by
  cases node with
  | element tag properties children extra =>
    rw [rewritten]
    exact @face_restyled config ⟨tag, properties, children, extra⟩ _ (map_text?_rewrittenAll children)
  | root => rw [rewritten]; rfl
  | text | other => rw [rewritten]

@[simp] theorem isTable_rewritten (node : Node) : isTable (rewritten config node) = isTable node :=
  isTable_eq_of_face (face_rewritten node)

mutual

theorem sweep_value : ∀ (node : Node) (p : Progress), (sweep config p node).stop = none →
    (sweep config p node).value = rewritten config node
  | .root children extra, p, h => by
    rw [sweep] at h ⊢
    simp only [Outcome.map] at h ⊢
    rw [sweepAll_value children _ h, rewritten]
  | .element tag properties children extra, p, h => by
    rw [sweep] at h ⊢
    split at h
    next => cases h
    next hf =>
      simp only [Outcome.map] at h ⊢
      rw [sweepAll_value children _ h, rewritten]
  | .text .., _, _ => by rw [sweep, rewritten]; rfl
  | .other .., _, _ => by rw [sweep, rewritten]; rfl

theorem sweepAll_value : ∀ (nodes : List Node) (p : Progress), (sweepAll config p nodes).stop = none →
    (sweepAll config p nodes).value = rewrittenAll config nodes
  | [], _, _ => by rw [sweepAll, rewrittenAll]; rfl
  | node :: rest, p, h => by
    rw [sweepAll] at h ⊢
    split at h
    next hn =>
      simp only [Outcome.map] at h ⊢
      rw [sweep_value node p hn, sweepAll_value rest _ h, rewrittenAll]
    next => cases h

end

/-- The tree that a run leaves which nothing stopped. -/
def rewrittenTree (config : Config) (r : Root) : Root :=
  ⟨(rewrittenAll config r.children).map (contain config), r.extra⟩

theorem toNode_rewrittenTree (r : Root) :
    (rewrittenTree config r).toNode = rewritten config r.toNode := by
  rw [Root.toNode, Root.toNode, rewritten]
  rfl

theorem run_root_of_not_failed {r : Root} (h : (run config r).failure = none) :
    (run config r).root = rewrittenTree config r := by
  rw [run_failure] at h
  rw [run_root, sweepTree, Outcome.map, sweepAll_value r.children _ h]
  rfl

end DocTree.Docs
