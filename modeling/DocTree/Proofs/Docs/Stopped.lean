import DocTree.Proofs.Docs.BottomUp
import DocTree.Proofs.Docs.Sites

/-!
# What a stopped run leaves

A run that strict mode stops leaves a tree that is changed in part.  To say which part, `applied`
applies the rules at a chosen set of sites, given by their numbers in the tree before (`sites`), and
at no other.  The choice is of rules and not of places: a callout that is chosen changes its lead
text also if that stands behind sites that are not.

`run_root_of_failed` says that the sites before the one that stopped the run are those where the
rules were applied.  The induction carries one equation for walks that end and walks that stop
(`sweep_value_eq_applied`): a walk applies the rules up to the first site with a fault, and a walk
without a fault has that site behind its end.
-/

namespace DocTree.Docs

/-! ### Rules at chosen sites -/

/-- What the rules make of an element; nothing, if they stop at it. -/
def ruled (config : Config) (e : Element) : Element :=
  match calloutFirst config e with
  | .ok (after, _) => after
  | .error _ => e

mutual

/-- The node with the rules applied at the chosen ones of its sites, if the first of them has the
given number. -/
def applied (config : Config) (chosen : Nat → Bool) : Nat → Node → Node
  | number, .root children extra =>
    let content := appliedAll config chosen (number + 1) children
    if chosen number then (containTables config ⟨content, extra⟩).value.toNode
    else .root content extra
  | number, .element tag properties children extra =>
    let content := appliedAll config chosen (number + 1) children
    if chosen number then (ruled config ⟨tag, properties, content, extra⟩).toNode
    else .element tag properties content extra
  | _, .text value extra => .text value extra
  | _, .other kind value children extra => .other kind value children extra

/-- The same for nodes beside each other, which are numbered on. -/
def appliedAll (config : Config) (chosen : Nat → Bool) : Nat → List Node → List Node
  | _, [] => []
  | number, node :: rest =>
    applied config chosen number node ::
      appliedAll config chosen (number + (sites node).length) rest

end

variable {config : Config} {chosen chosen' : Nat → Bool}

theorem ruled_lenient (e : Element) : ruled config.lenient e = restyled config e e.children := by
  rw [ruled, calloutFirst_eq, fault?_of_lenient rfl]
  rfl

/-- The rules treat an element with the content that is left as they treat it with its own, as long
as both show the same faces. -/
theorem ruled_content {e : Element} {content : List Node}
    (h : content.map Node.face = e.children.map Node.face) :
    ruled config.lenient { e with children := content } = restyled config e content := by
  rw [ruled_lenient]
  exact restyled_content h

mutual

/-- Only the choice among the sites of the node counts. -/
theorem applied_congr : ∀ (node : Node) (number : Nat),
    (∀ i < (sites node).length, chosen (number + i) = chosen' (number + i)) →
      applied config chosen number node = applied config chosen' number node
  | .root children extra, number, h => by
    rw [sites, List.length_cons] at h
    have hbelow := appliedAll_congr children (number + 1) fun i hi => by
      rw [Nat.add_assoc, Nat.add_comm 1 i]
      exact h (i + 1) (Nat.succ_lt_succ hi)
    have hnumber : chosen number = chosen' number := h 0 (Nat.succ_pos _)
    rw [applied, applied, hbelow, hnumber]
  | .element tag properties children extra, number, h => by
    rw [sites, List.length_cons] at h
    have hbelow := appliedAll_congr children (number + 1) fun i hi => by
      rw [Nat.add_assoc, Nat.add_comm 1 i]
      exact h (i + 1) (Nat.succ_lt_succ hi)
    have hnumber : chosen number = chosen' number := h 0 (Nat.succ_pos _)
    rw [applied, applied, hbelow, hnumber]
  | .text .., _, _ => by rw [applied, applied]
  | .other .., _, _ => by rw [applied, applied]

theorem appliedAll_congr : ∀ (nodes : List Node) (number : Nat),
    (∀ i < (sitesAll nodes).length, chosen (number + i) = chosen' (number + i)) →
      appliedAll config chosen number nodes = appliedAll config chosen' number nodes
  | [], _, _ => by rw [appliedAll, appliedAll]
  | node :: rest, number, h => by
    rw [sitesAll, List.length_append] at h
    rw [appliedAll, appliedAll, applied_congr node number fun i hi => h i (by omega),
      appliedAll_congr rest _ fun i hi => by rw [Nat.add_assoc]; exact h _ (by omega)]

end

mutual

theorem applied_never : ∀ (node : Node) (number : Nat),
    applied config (fun _ => false) number node = node
  | .root children extra, number => by
    rw [applied, appliedAll_never children]
    rfl
  | .element tag properties children extra, number => by
    rw [applied, appliedAll_never children]
    rfl
  | .text .., _ => by rw [applied]
  | .other .., _ => by rw [applied]

theorem appliedAll_never : ∀ (nodes : List Node) (number : Nat),
    appliedAll config (fun _ => false) number nodes = nodes
  | [], _ => by rw [appliedAll]
  | node :: rest, number => by
    rw [appliedAll, applied_never node, appliedAll_never rest]

end

/-- Where no site is chosen, nothing is changed. -/
theorem applied_of_none (node : Node) (number : Nat)
    (h : ∀ i < (sites node).length, chosen (number + i) = false) :
    applied config chosen number node = node :=
  (applied_congr node number h).trans (applied_never node number)

theorem appliedAll_of_none (nodes : List Node) (number : Nat)
    (h : ∀ i < (sitesAll nodes).length, chosen (number + i) = false) :
    appliedAll config chosen number nodes = nodes :=
  (appliedAll_congr nodes number h).trans (appliedAll_never nodes number)

/-! ### A walk applies the rules up to a fault -/

/-- Whether a walk stops at the site. -/
def Site.faulty (config : Config) (s : Site) : Bool := (s.fault? config).isSome

/-- The number of sites before the first one with a fault; all of them, if there is none. -/
def faultless (config : Config) (list : List Site) : Nat := list.findIdx (Site.faulty config)

theorem faultless_eq_length_iff {list : List Site} :
    faultless config list = list.length ↔ list.findSome? (Site.fault? config) = none := by
  rw [faultless, List.findIdx_eq_length, List.findSome?_eq_none_iff]
  refine forall₂_congr fun s _ => ?_
  rw [Site.faulty, Option.isSome_eq_false_iff, Option.isNone_iff_eq_none]

theorem faultless_cons_of_none {s : Site} {list : List Site} (h : s.fault? config = none) :
    faultless config (s :: list) = faultless config list + 1 := by
  rw [faultless, List.findIdx_cons, Site.faulty, h]
  rfl

theorem faultless_cons_of_some {s : Site} {list : List Site} {missing : MissingLeadText}
    (h : s.fault? config = some missing) : faultless config (s :: list) = 0 := by
  rw [faultless, List.findIdx_cons, Site.faulty, h]
  rfl

theorem faultless_append_of_none {before after : List Site}
    (h : before.findSome? (Site.fault? config) = none) :
    faultless config (before ++ after) = before.length + faultless config after := by
  have hlength := faultless_eq_length_iff.2 h
  rw [faultless] at hlength
  rw [faultless, List.findIdx_append, hlength, if_neg (Nat.lt_irrefl _), Nat.add_comm]
  rfl

theorem faultless_append_of_some {before : List Site} (after : List Site)
    {missing : MissingLeadText} (h : before.findSome? (Site.fault? config) = some missing) :
    faultless config (before ++ after) = faultless config before ∧
      faultless config before < before.length := by
  have hne : faultless config before ≠ before.length := fun heq => by
    rw [faultless_eq_length_iff.1 heq] at h
    cases h
  have hlt : faultless config before < before.length :=
    Nat.lt_of_le_of_ne List.findIdx_le_length hne
  refine ⟨?_, hlt⟩
  rw [faultless, List.findIdx_append]
  exact if_pos hlt

mutual

-- The walk stops or ends; either way the sites it has treated are those before the first fault.
theorem sweep_value_eq_applied : ∀ (node : Node) (p : Progress) (number : Nat),
    (sweep config p node).value =
      applied config.lenient (· < number + faultless config (sites node)) number node
  | .root children extra, p, number => by
    have hbelow := sweepAll_value_eq_applied children
      (p.addTables (containTables config ⟨children, extra⟩)) (number + 1)
    rw [sweep, sites, faultless_cons_of_none rfl, applied, if_pos (by simp)]
    simp only [Outcome.map, hbelow, Nat.add_assoc, Nat.add_comm 1]
    rfl
  | .element tag properties children extra, p, number => by
    rw [sweep, sites]
    cases hfault : fault? config ⟨tag, properties, children, extra⟩ with
    | some missing =>
      -- no site from here on has been treated
      have hsite : Site.fault? config (.element ⟨tag, properties, children, extra⟩) = some missing :=
        hfault
      rw [faultless_cons_of_some hsite, applied_of_none _ _ fun i _ => by simp]
    | none =>
      have hsite : Site.fault? config (.element ⟨tag, properties, children, extra⟩) = none := hfault
      have hbelow := sweepAll_value_eq_applied children
        (p.addElement config ⟨tag, properties, children, extra⟩) (number + 1)
      -- the rule reads of the content what the walk through it keeps
      have hfaces := @map_face_sweepAll config
        (p.addElement config ⟨tag, properties, children, extra⟩) children
      rw [faultless_cons_of_none hsite, applied, if_pos (by simp)]
      have hrule := @ruled_content config ⟨tag, properties, children, extra⟩ _ hfaces
      rw [hbelow, Nat.add_assoc, Nat.add_comm 1] at hrule
      simp only [Outcome.map, hbelow, Nat.add_assoc, Nat.add_comm 1, ← hrule]
  | .text .., p, number => by rw [sweep, applied]; rfl
  | .other .., p, number => by rw [sweep, applied]; rfl

theorem sweepAll_value_eq_applied : ∀ (nodes : List Node) (p : Progress) (number : Nat),
    (sweepAll config p nodes).value =
      appliedAll config.lenient (· < number + faultless config (sitesAll nodes)) number nodes
  | [], p, number => by rw [sweepAll, appliedAll]; rfl
  | node :: rest, p, number => by
    have hnode := sweep_value_eq_applied node p number
    have hstop := @sweep_stop config node p
    rw [sweepAll, sitesAll, appliedAll]
    cases hs : (sweep config p node).stop with
    | none =>
      -- the node is treated as a whole, and the rest on from the number behind its sites
      rw [hs] at hstop
      have hrest := sweepAll_value_eq_applied rest (sweep config p node).state
        (number + (sites node).length)
      rw [faultless_append_of_none hstop.symm, ← Nat.add_assoc, ← hrest,
        @applied_congr config.lenient _ (· < number + faultless config (sites node)), ← hnode]
      · rfl
      · intro i hi
        rw [faultless_eq_length_iff.2 hstop.symm]
        simp only [decide_eq_decide]
        omega
    | some missing =>
      -- the fault is in the node, so no site of the rest comes before it
      rw [hs] at hstop
      obtain ⟨hfirst, hlt⟩ := faultless_append_of_some (sitesAll rest) hstop.symm
      rw [hfirst, ← hnode, appliedAll_of_none]
      · intro i _
        simp only [decide_eq_false_iff_not]
        omega

end

/-- A run applies the rules at the sites before the first one with a fault. -/
theorem run_root_eq_applied (config : Config) (r : Root) :
    (run config r).root.toNode =
      applied config.lenient (· < faultless config (sites r.toNode)) 0 r.toNode := by
  have h := @sweep_value_eq_applied config r.toNode .start 0
  rw [Nat.zero_add] at h
  rw [← h, run_root, Root.toNode, Root.toNode, sweep]
  rfl

/-- A lenient run applies the rules at all sites. -/
theorem run_lenient_root (config : Config) (r : Root) :
    (run config.lenient r).root.toNode = applied config.lenient (fun _ => true) 0 r.toNode := by
  have hlength : faultless config.lenient (sites r.toNode) = (sites r.toNode).length :=
    faultless_eq_length_iff.2 (List.findSome?_eq_none_iff.2 fun s _ => s.fault?_of_lenient rfl)
  rw [run_root_eq_applied, hlength]
  exact applied_congr r.toNode 0 fun i hi => by simpa using hi

/-- **A run that is stopped leaves the tree with the rules applied at exactly the sites before the
blockquote that stopped it**, as a lenient run applies them at all sites.  Neither that blockquote
nor a site behind it is touched by a rule of its own. -/
theorem run_root_of_failed (config : Config) (r : Root) (missing : MissingLeadText)
    (h : (run config r).failure = some missing) :
    ∃ before e after, sites r.toNode = before ++ .element e :: after ∧
      (∀ s ∈ before, ¬ s.Deficient) ∧ Deficient e missing.paragraph ∧
      (run config r).root.toNode = applied config.lenient (· < before.length) 0 r.toNode ∧
      (run config.lenient r).root.toNode = applied config.lenient (fun _ => true) 0 r.toNode := by
  have hstrict := strict_of_failure h
  obtain ⟨before, e, after, hsites, hbefore, he⟩ := (run_failure_eq_some_iff hstrict).1 h
  have hnone : before.findSome? (Site.fault? config) = none :=
    List.findSome?_eq_none_iff.2 fun s hs => (Site.fault?_eq_none_iff hstrict).2 (hbefore s hs)
  have hfault : Site.fault? config (.element e) = some missing := (fault?_eq_some_iff hstrict).2 he
  have hcount : faultless config (sites r.toNode) = before.length := by
    rw [hsites, faultless_append_of_none hnone, faultless_cons_of_some hfault, Nat.add_zero]
  refine ⟨before, e, after, hsites, hbefore, he, ?_, run_lenient_root config r⟩
  rw [run_root_eq_applied, hcount]

/-- The outer blockquote stands before the inner one, which stops the run, and loses its marker,
although the text with the marker comes last. -/
theorem run_root_of_failed_sampleQuotes :
    (run { strictCallouts := true } sampleQuotes).failure = some ⟨1⟩ ∧
      ∃ before e after, sites sampleQuotes.toNode = before ++ .element e :: after ∧
        (∀ s ∈ before, ¬ s.Deficient) ∧ Deficient e 1 ∧
        (run { strictCallouts := true } sampleQuotes).root.toNode =
          applied {} (· < before.length) 0 sampleQuotes.toNode ∧
        (run {} sampleQuotes).root.toNode = applied {} (fun _ => true) 0 sampleQuotes.toNode := by
  have hfailure : (run { strictCallouts := true } sampleQuotes).failure = some ⟨1⟩ := by decide
  exact ⟨hfailure, run_root_of_failed { strictCallouts := true } sampleQuotes ⟨1⟩ hfailure⟩

end DocTree.Docs
