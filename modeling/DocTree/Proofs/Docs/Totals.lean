import DocTree.Proofs.Docs.BottomUp
import DocTree.Proofs.Docs.Sites

/-!
# What a run counts

A run counts tables at a root and a heading or a callout at an element.  What it counts at a site can
be read off the tree before (`Site.tally`), and a run that comes to its end has counted the sum over
all sites (`run_tally_eq_total`).
-/

namespace DocTree.Docs

/-- What the rules count at a site. -/
def Site.tally : Site → Tally
  | root r => ⟨0, 0, (tablePositions r.children).length⟩
  | element e =>
    ⟨if (permalinkId? e).isSome then 1 else 0, if (calloutLead? e).isSome then 1 else 0, 0⟩

/-- The sum of what the rules count at sites. -/
def total (list : List Site) : Tally := list.foldr (fun s sum => s.tally + sum) ⟨0, 0, 0⟩

theorem total_cons (s : Site) (list : List Site) : total (s :: list) = s.tally + total list := rfl

theorem total_append (before after : List Site) :
    total (before ++ after) = total before + total after := by
  induction before with
  | nil => exact (Tally.zero_add _).symm
  | cons s before ih => rw [List.cons_append, total_cons, total_cons, ih, Tally.add_assoc]

variable {config : Config}

theorem count_linkHeading (e : Element) :
    (linkHeading config e).count = if (permalinkId? e).isSome then 1 else 0 := by
  unfold linkHeading
  cases permalinkId? e <;> rfl

theorem count_styledCallout (e : Element) :
    (styledCallout config e).count = if (calloutLead? e).isSome then 1 else 0 := by
  unfold styledCallout
  cases hp : calloutParagraph? e with
  | none =>
    have hl : calloutLead? e = none := by simp [calloutLead?, hp]
    rw [hl]
    rfl
  | some i => cases calloutLead? e <;> rfl

theorem elementTally_eq (e : Element) : elementTally config e = (Site.element e).tally := by
  rw [elementTally, count_linkHeading, count_styledCallout]
  rfl

mutual

-- The state goes from left to right through the walk and the sum from the node into its content, so
-- both add up in the order of the sites.
theorem sweep_tally : ∀ (node : Node) (p : Progress), (sweep config p node).stop = none →
    (sweep config p node).state.tally = p.tally + total (sites node)
  | .root children extra, p, h => by
    rw [sweep] at h ⊢
    rw [sites, total_cons, ← Tally.add_assoc]
    exact sweepAll_tally children _ h
  | .element tag properties children extra, p, h => by
    rw [sweep] at h ⊢
    rw [sites, total_cons, ← Tally.add_assoc, ← @elementTally_eq config,
      ← tally_addElement]
    split at h
    next => cases h
    next => exact sweepAll_tally children _ h
  | .text .., p, _ => by
    rw [sweep, sites]
    rfl
  | .other .., p, _ => by
    rw [sweep, sites]
    rfl

theorem sweepAll_tally : ∀ (nodes : List Node) (p : Progress), (sweepAll config p nodes).stop = none →
    (sweepAll config p nodes).state.tally = p.tally + total (sitesAll nodes)
  | [], p, _ => by
    rw [sweepAll, sitesAll]
    rfl
  | node :: rest, p, h => by
    rw [sweepAll] at h ⊢
    rw [sitesAll, total_append, ← Tally.add_assoc]
    split at h
    next hnode =>
      rw [← sweep_tally node p hnode]
      exact sweepAll_tally rest _ h
    next => cases h

end

/-- A run that comes to its end has counted what there is to count at all sites. -/
theorem run_tally_eq_total {r : Root} (h : (run config r).failure = none) :
    (run config r).tally = total (sites r.toNode) := by
  have hsweep := @sweep_tally config r.toNode .start
  rw [run_failure, sweepTree] at h
  rw [run_tally, ← Tally.zero_add (total _)]
  rw [Root.toNode, sweep] at hsweep
  exact hsweep h

end DocTree.Docs
