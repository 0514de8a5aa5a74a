import DocTree.Proofs.Docs.Rewritten

/-!
# Where a strict run stops

The rules act at roots and elements.  `sites` lists those that a walk reaches, each before its
content, as they stand in the tree before the run.

A blockquote is *deficient* if it has a property map and a paragraph, but no text in the first one
(`Deficient`); with a text in it, it is a *callout* (`IsCallout`).  A strict run stops at the first
deficient blockquote in the order of `sites`, and only there (`run_failure_iff`), although it asks
for deficiency in a tree that it has changed by then.
-/

namespace DocTree

theorem Node.text?_eq_some_iff {node : Node} {value : String} :
    node.text? = some value ↔ ∃ extra, node = .text value extra := by
  cases node <;> simp [text?]

namespace Docs

/-! ### Callouts and deficient blockquotes -/

/-- The element is a blockquote with a property map, and the first paragraph in it stands at the
given place and has the given content. -/
structure FirstParagraph (e : Element) (i : Nat) (content : List Node) : Prop where
  tag : e.tag = "blockquote"
  properties : e.properties.isSome
  paragraph : ∃ properties extra, e.children[i]? = some (.element "p" properties content extra)
  first : ∀ j < i, ∀ node, e.children[j]? = some node → node.hasTag "p" = false

/-- A blockquote whose first paragraph, at the given place, holds no text. -/
def Deficient (e : Element) (i : Nat) : Prop :=
  ∃ content, FirstParagraph e i content ∧ ∀ node ∈ content, node.text? = none

/-- A blockquote whose first paragraph, at the given place, holds a text; the first one is given. -/
def IsCallout (e : Element) (i : Nat) (lead : String) : Prop :=
  ∃ before extra after, FirstParagraph e i (before ++ .text lead extra :: after) ∧
    ∀ node ∈ before, node.text? = none

theorem leadText?_eq_some_iff {nodes : List Node} {lead : String} :
    leadText? nodes = some lead ↔ ∃ before extra after,
      nodes = before ++ .text lead extra :: after ∧ ∀ node ∈ before, node.text? = none := by
  rw [leadText?, List.findSome?_eq_some_iff]
  constructor
  · rintro ⟨before, node, after, rfl, hnode, hbefore⟩
    obtain ⟨extra, rfl⟩ := Node.text?_eq_some_iff.1 hnode
    exact ⟨before, extra, after, rfl, hbefore⟩
  · rintro ⟨before, extra, after, rfl, hbefore⟩
    exact ⟨before, _, after, rfl, rfl, hbefore⟩

theorem calloutParagraph?_eq_some_iff {e : Element} {i : Nat} :
    calloutParagraph? e = some i ↔ ∃ content, FirstParagraph e i content := by
  unfold calloutParagraph?
  constructor
  · intro h
    split at h
    next hc =>
      obtain ⟨hlt, htag, hfirst⟩ := List.findIdx?_eq_some_iff_getElem.1 h
      obtain ⟨properties, content, extra, hnode⟩ := Node.hasTag_iff.1 htag
      refine ⟨content, hc.1, hc.2, ⟨properties, extra, ?_⟩, fun j hj node hn => ?_⟩
      · rw [List.getElem?_eq_getElem hlt, hnode]
      · obtain ⟨_, rfl⟩ := List.getElem?_eq_some_iff.1 hn
        simpa using hfirst j hj
    next => cases h
  · rintro ⟨content, htag, hproperties, ⟨properties, extra, hnode⟩, hfirst⟩
    rw [if_pos ⟨htag, hproperties⟩, List.findIdx?_eq_some_iff_getElem]
    obtain ⟨hlt, hnode⟩ := List.getElem?_eq_some_iff.1 hnode
    refine ⟨hlt, by rw [hnode]; rfl, fun j hj => ?_⟩
    simpa using hfirst j hj _ (List.getElem?_eq_getElem (Nat.lt_trans hj hlt))

/-- The lead text that the rules find is the first text of the first paragraph. -/
theorem calloutLead?_of_firstParagraph {e : Element} {i : Nat} {content : List Node}
    (h : FirstParagraph e i content) : calloutLead? e = (leadText? content).map (i, ·) := by
  obtain ⟨properties, extra, hnode⟩ := h.paragraph
  rw [calloutLead?, calloutParagraph?_eq_some_iff.2 ⟨content, h⟩, Option.bind_some, hnode]
  rfl

theorem calloutLead?_eq_some_iff {e : Element} {i : Nat} {lead : String} :
    calloutLead? e = some (i, lead) ↔ IsCallout e i lead := by
  constructor
  · intro h
    obtain ⟨content, hp⟩ := calloutParagraph?_eq_some_iff.1 (calloutParagraph?_of_calloutLead? h)
    rw [calloutLead?_of_firstParagraph hp] at h
    obtain ⟨_, hlead, ⟨⟩⟩ := Option.map_eq_some_iff.1 h
    obtain ⟨before, extra, after, rfl, hbefore⟩ := leadText?_eq_some_iff.1 hlead
    exact ⟨before, extra, after, hp, hbefore⟩
  · rintro ⟨before, extra, after, hp, hbefore⟩
    rw [calloutLead?_of_firstParagraph hp,
      leadText?_eq_some_iff.2 ⟨before, extra, after, rfl, hbefore⟩]
    rfl

theorem fault?_of_lenient {config : Config} (h : config.strictCallouts = false) (e : Element) :
    fault? config e = none := by
  unfold fault?
  split
  · simp [h]
  · rfl

/-- In strict mode the walk stops at an element exactly if that is a deficient blockquote. -/
theorem fault?_eq_some_iff {config : Config} (hstrict : config.strictCallouts = true) {e : Element}
    {missing : MissingLeadText} :
    fault? config e = some missing ↔ Deficient e missing.paragraph := by
  unfold fault?
  constructor
  · intro h
    -- there is a paragraph, and no text in it
    split at h
    next i hi hlead =>
      rw [if_pos hstrict] at h
      cases h
      obtain ⟨content, hp⟩ := calloutParagraph?_eq_some_iff.1 hi
      rw [calloutLead?_of_firstParagraph hp, Option.map_eq_none_iff] at hlead
      exact ⟨content, hp, List.findSome?_eq_none_iff.1 hlead⟩
    next => cases h
  · rintro ⟨content, hp, hnone⟩
    have hlead : leadText? content = none := List.findSome?_eq_none_iff.2 hnone
    rw [calloutParagraph?_eq_some_iff.2 ⟨content, hp⟩, calloutLead?_of_firstParagraph hp, hlead]
    simp [hstrict]

/-! ### The places of the rules -/

/-- A place where rules act. -/
inductive Site where
  | root (r : Root)
  | element (e : Element)

/-- The site is a deficient blockquote. -/
def Site.Deficient : Site → Prop
  | root _ => False
  | element e => ∃ i, Docs.Deficient e i

mutual

/-- The roots and elements from a node down, each before its content.  A node of another kind hides
what it holds. -/
def sites : Node → List Site
  | .root children extra => .root ⟨children, extra⟩ :: sitesAll children
  | .element tag properties children extra =>
    .element ⟨tag, properties, children, extra⟩ :: sitesAll children
  | .text .. => []
  | .other .. => []

/-- The same for nodes beside each other. -/
def sitesAll : List Node → List Site
  | [] => []
  | node :: rest => sites node ++ sitesAll rest

end

theorem sitesAll_eq_flatMap (nodes : List Node) : sitesAll nodes = nodes.flatMap sites := by
  induction nodes with
  | nil => rfl
  | cons node rest ih => rw [sitesAll, List.flatMap_cons, ih]

/-- What stops a walk at a site. -/
def Site.fault? (config : Config) : Site → Option MissingLeadText
  | root _ => none
  | element e => Docs.fault? config e

variable {config : Config}

theorem Site.fault?_of_lenient (h : config.strictCallouts = false) (s : Site) :
    s.fault? config = none := by
  cases s with
  | root r => rfl
  | element e => exact Docs.fault?_of_lenient h e

theorem Site.fault?_eq_none_iff (hstrict : config.strictCallouts = true) {s : Site} :
    s.fault? config = none ↔ ¬ s.Deficient := by
  cases s with
  | root r => simp [fault?, Deficient]
  | element e =>
    rw [fault?, Deficient, Option.eq_none_iff_forall_ne_some, not_exists]
    constructor
    · exact fun h i hi => h ⟨i⟩ ((fault?_eq_some_iff hstrict).2 hi)
    · exact fun h missing hm => h _ ((fault?_eq_some_iff hstrict).1 hm)

mutual

-- `sweep` meets every site as it stands in the tree before.  That this is what a walk comes to, which
-- has changed lead texts, classes and content by then, is `walk_eq_sweep`.
/-- A walk stops at the first site with a fault, as the sites are before the walk. -/
theorem sweep_stop : ∀ (node : Node) (p : Progress),
    (sweep config p node).stop = (sites node).findSome? (Site.fault? config)
  | .root children extra, p => by
    rw [sweep, sites, List.findSome?_cons]
    exact sweepAll_stop children _
  | .element tag properties children extra, p => by
    rw [sweep, sites, List.findSome?_cons, Site.fault?]
    cases fault? config ⟨tag, properties, children, extra⟩ with
    | some missing => rfl
    | none => exact sweepAll_stop children _
  | .text .., p => by rw [sweep, sites]; rfl
  | .other .., p => by rw [sweep, sites]; rfl

theorem sweepAll_stop : ∀ (nodes : List Node) (p : Progress),
    (sweepAll config p nodes).stop = (sitesAll nodes).findSome? (Site.fault? config)
  | [], p => by rw [sweepAll, sitesAll]; rfl
  | node :: rest, p => by
    have hnode := sweep_stop node p
    rw [sweepAll, sitesAll, List.findSome?_append]
    cases hs : (sweep config p node).stop with
    | none =>
      rw [← hnode, hs, Option.none_or]
      exact sweepAll_stop rest _
    | some missing =>
      rw [← hnode, hs]
      rfl

end

theorem run_failure_eq (config : Config) (r : Root) :
    (run config r).failure = (sites r.toNode).findSome? (Site.fault? config) := by
  rw [run_failure, Root.toNode, sites, List.findSome?_cons]
  exact sweepAll_stop r.children _

/-- Without strict mode no run fails. -/
theorem run_failure_of_lenient (h : config.strictCallouts = false) (r : Root) :
    (run config r).failure = none := by
  rw [run_failure_eq, List.findSome?_eq_none_iff]
  exact fun s _ => s.fault?_of_lenient h

/-- Only strict mode stops a run. -/
theorem strict_of_failure {r : Root} {missing : MissingLeadText}
    (h : (run config r).failure = some missing) : config.strictCallouts = true := by
  cases hstrict : config.strictCallouts with
  | true => rfl
  | false =>
    rw [run_failure_of_lenient hstrict] at h
    cases h

/-! ### Strict and lenient runs -/

/-- The configuration in strict mode. -/
def Config.strict (config : Config) : Config := { config with strictCallouts := true }

/-- The same configuration without strict mode. -/
def Config.lenient (config : Config) : Config := { config with strictCallouts := false }

mutual

/-- A walk that nothing stops is the same in strict mode. -/
theorem sweep_strict : ∀ (node : Node) (p : Progress), (sweep config.strict p node).stop = none →
    sweep config.strict p node = sweep config.lenient p node
  | .root children extra, p, h => by
    rw [sweep] at h ⊢
    rw [sweepAll_strict children _ h, sweep]
    rfl
  | .element tag properties children extra, p, h => by
    rw [sweep] at h ⊢
    rw [sweep, @fault?_of_lenient config.lenient rfl]
    split at h
    next => cases h
    next hfault =>
      rw [sweepAll_strict children _ h]
      rfl
  | .text .., p, _ => by rw [sweep, sweep]
  | .other .., p, _ => by rw [sweep, sweep]

theorem sweepAll_strict : ∀ (nodes : List Node) (p : Progress),
    (sweepAll config.strict p nodes).stop = none →
      sweepAll config.strict p nodes = sweepAll config.lenient p nodes
  | [], p, _ => by rw [sweepAll, sweepAll]
  | node :: rest, p, h => by
    rw [sweepAll] at h ⊢
    rw [sweepAll]
    split at h
    next hnode =>
      have heq := sweep_strict node p hnode
      rw [← heq, hnode]
      simp only
      rw [sweepAll_strict rest _ h]
    next => cases h

end

/-- A run that nothing stops is the same in strict mode. -/
theorem run_strict_eq (r : Root) (h : (run config.strict r).failure = none) :
    run config.strict r = run config.lenient r := by
  rw [run_failure, sweepTree] at h
  have hsweep : sweepTree config.strict .start r = sweepTree config.lenient .start r := by
    rw [sweepTree, sweepAll_strict r.children _ h]
    rfl
  unfold run
  simp only [walkTree_eq_sweepTree, hsweep]

/-- The site that stops a strict run, and what it reports. -/
theorem run_failure_eq_some_iff (hstrict : config.strictCallouts = true) {r : Root}
    {missing : MissingLeadText} :
    (run config r).failure = some missing ↔
      ∃ before e after, sites r.toNode = before ++ .element e :: after ∧
        (∀ s ∈ before, ¬ s.Deficient) ∧ Deficient e missing.paragraph := by
  rw [run_failure_eq, List.findSome?_eq_some_iff]
  constructor
  · rintro ⟨before, s, after, hsites, hs, hbefore⟩
    cases s with
    | root r => cases hs
    | element e =>
      exact ⟨before, e, after, hsites,
        fun s hmem => (Site.fault?_eq_none_iff hstrict).1 (hbefore s hmem),
        (fault?_eq_some_iff hstrict).1 hs⟩
  · rintro ⟨before, e, after, hsites, hbefore, he⟩
    exact ⟨before, .element e, after, hsites, (fault?_eq_some_iff hstrict).2 he,
      fun s hmem => (Site.fault?_eq_none_iff hstrict).2 (hbefore s hmem)⟩

/-- **A strict run fails exactly at the first deficient blockquote**, with the place of its first
paragraph; a lenient run never fails, and a strict run that does not fail is the lenient run, in what
it counts and reports too. -/
theorem run_failure_iff (config : Config) (r : Root) :
    (config.strictCallouts = false → (run config r).failure = none) ∧
    (config.strictCallouts = true →
      ((run config r).failure.isSome ↔ ∃ s ∈ sites r.toNode, s.Deficient) ∧
      ∀ missing, (run config r).failure = some missing ↔
        ∃ before e after, sites r.toNode = before ++ .element e :: after ∧
          (∀ s ∈ before, ¬ s.Deficient) ∧ Deficient e missing.paragraph) ∧
    ((run config.strict r).failure = none → run config.strict r = run config.lenient r) := by
  refine ⟨fun hlenient => run_failure_of_lenient hlenient r,
    fun hstrict => ⟨?_, fun missing => ?_⟩, run_strict_eq r⟩
  · rw [run_failure_eq, List.findSome?_isSome_iff]
    refine exists_congr fun s => and_congr_right fun _ => ?_
    rw [Option.isSome_iff_ne_none, Ne, Site.fault?_eq_none_iff hstrict, Classical.not_not]
  · exact run_failure_eq_some_iff hstrict

/-- A callout with a marker, and in its paragraph a blockquote of which the first paragraph, behind a
text, is empty; then a table. -/
def sampleQuotes : Root where
  children :=
    [.element "blockquote" (some .empty)
        [.element "p" none
          [.element "blockquote" (some .empty) [.ofText " ", .element "p" none [] .empty] .empty,
            .ofText "(red) outer"] .empty] .empty,
      .element "table" none [] .empty]
  extra := .empty

theorem run_failure_iff_sampleQuotes :
    (run {} sampleQuotes).failure = none ∧
      (run { strictCallouts := true } sampleQuotes).failure = some ⟨1⟩ := by
  refine ⟨(run_failure_iff {} sampleQuotes).1 rfl, ?_⟩
  have hiff := ((run_failure_iff { strictCallouts := true } sampleQuotes).2.1 rfl).2 ⟨1⟩
  -- the root, the outer blockquote and its paragraph come before the inner blockquote
  refine hiff.2 ⟨(sites sampleQuotes.toNode).take 3, _, _, rfl, fun s hs => ?_, ?_⟩
  · have hnone : ∀ s ∈ (sites sampleQuotes.toNode).take 3,
        s.fault? { strictCallouts := true } = none := by decide
    exact (Site.fault?_eq_none_iff rfl).1 (hnone s hs)
  · exact (@fault?_eq_some_iff { strictCallouts := true } rfl _ _).1 rfl

end Docs

end DocTree
