import DocTree.Proofs.Docs.Restyled
import DocTree.Proofs.Docs.Totals
import Mathlib.Data.List.Forall2
import Mathlib.Logic.Function.Iterate

/-!
# Repeated runs

Nothing marks a tree as treated, so a second run treats headings and callouts again, and finds the
anchors, classes and texts that the first one left.  Only tables are not found again.

The sites where a rule has something to do are *matched* (`Site.matched`).  What the rules add
contains none, so the matched sites after a run are those before it, each as the run leaves it
(`matchedSites_rewritten`).  This is one step; runs are counted from there, site by site: a heading
has one anchor for every run (`headingAfter_iterate`), a callout one group of classes, and the
markers taken off in all runs spell its lead text with what is left (`calloutAfter_iterate`).  What
this says of whole trees is `run_afterRuns`.
-/

namespace DocTree.Docs

/-! ### Matched sites -/

/-- A root, a heading with a permalink or a callout. -/
def Site.matched : Site → Bool
  | root _ => true
  | element e => (permalinkId? e).isSome || (calloutLead? e).isSome

/-- The matched sites from a node down. -/
def matchedSites (node : Node) : List Site := (sites node).filter Site.matched

/-- The element as a run leaves it that comes to its end. -/
def rewrittenElement (config : Config) (e : Element) : Element :=
  restyled config e (e.children.map (rewritten config))

/-- The site as a run leaves it that comes to its end. -/
def Site.rewritten (config : Config) : Site → Site
  | root r => root (rewrittenTree config r)
  | element e => element (rewrittenElement config e)

variable {config : Config}

theorem Site.matched_element_iff {e : Element} :
    (Site.element e).matched = true ↔
      (∃ id, permalinkId? e = some id) ∨ ∃ i lead, IsCallout e i lead := by
  simp only [matched, Bool.or_eq_true, Option.isSome_iff_exists, Prod.exists,
    calloutLead?_eq_some_iff]

theorem filter_sitesAll (nodes : List Node) :
    (sitesAll nodes).filter Site.matched = nodes.flatMap matchedSites := by
  rw [sitesAll_eq_flatMap, List.filter_flatMap]
  rfl

theorem matchedSites_root (children : List Node) (extra : Extra) :
    matchedSites (.root children extra) =
      .root ⟨children, extra⟩ :: children.flatMap matchedSites := by
  rw [matchedSites, sites, List.filter_cons_of_pos rfl, filter_sitesAll]

theorem matchedSites_element (e : Element) :
    matchedSites e.toNode =
      if (Site.element e).matched then .element e :: e.children.flatMap matchedSites
      else e.children.flatMap matchedSites := by
  rw [Element.toNode, matchedSites, sites, List.filter_cons, filter_sitesAll]

theorem matched_of_inert {e : Element} (h : Inert e) : (Site.element e).matched = false := by
  rw [Site.matched, permalinkId?_of_inert h, calloutLead?_of_inert h]
  rfl

theorem matchedSites_of_inert {e : Element} (h : Inert e) :
    matchedSites e.toNode = e.children.flatMap matchedSites := by
  rw [matchedSites_element, matched_of_inert h]
  rfl

/-! ### What the rules add contains no matched site -/

theorem matchedSites_permalinkAnchor (id : String) :
    matchedSites (permalinkAnchor config id) = [] :=
  (matchedSites_of_inert (inert_of_tag "a" rfl (by decide))).trans rfl

theorem matchedSites_contain (node : Node) :
    matchedSites (contain config node) = matchedSites node := by
  unfold contain
  split
  · exact (matchedSites_of_inert (inert_of_tag "div" rfl (by decide))).trans (List.append_nil _)
  · rfl

theorem flatMap_matchedSites_setLeadText (value : String) (nodes : List Node) :
    (setLeadText value nodes).flatMap matchedSites = nodes.flatMap matchedSites := by
  induction nodes with
  | nil => rfl
  | cons node rest ih =>
    cases htext : node.text? with
    | none => rw [setLeadText_cons htext, List.flatMap_cons, List.flatMap_cons, ih]
    | some text =>
      cases node with
      | text => rfl
      | _ => cases htext

theorem matchedSites_mapContent (value : String) {node : Node} (h : node.hasTag "p" = true) :
    matchedSites (mapContent (setLeadText value) node) = matchedSites node := by
  obtain ⟨properties, children, extra, rfl⟩ := Node.hasTag_iff.1 h
  -- a paragraph matches no rule, so its sites are those of its content
  have hsites : ∀ content, matchedSites (.element "p" properties content extra) =
      content.flatMap matchedSites := fun content =>
    @matchedSites_of_inert ⟨"p", properties, content, extra⟩ (inert_of_tag "p" rfl (by decide))
  rw [mapContent, hsites, hsites, flatMap_matchedSites_setLeadText]

theorem flatMap_modify {α : Type} {f : Node → List α} {g : Node → Node} {nodes : List Node} {i : Nat}
    (h : ∀ node, nodes[i]? = some node → f (g node) = f node) :
    (nodes.modify i g).flatMap f = nodes.flatMap f := by
  induction nodes generalizing i with
  | nil => cases i <;> rfl
  | cons node rest ih =>
    cases i with
    | zero => rw [List.modify_zero_cons, List.flatMap_cons, List.flatMap_cons, h node rfl]
    | succ i =>
      rw [List.modify_succ_cons, List.flatMap_cons, List.flatMap_cons, ih fun node hn => h node hn]

/-- The rules of an element neither add matched sites to its content nor take any from it. -/
theorem flatMap_matchedSites_restyle {e : Element} {content : List Node}
    (h : content.map Node.face = e.children.map Node.face) :
    (restyle config e content).flatMap matchedSites = content.flatMap matchedSites := by
  unfold restyle
  cases hl : calloutLead? e with
  | some lead =>
    obtain ⟨i, lead⟩ := lead
    refine flatMap_modify fun node hnode => matchedSites_mapContent _ ?_
    exact hasTag_of_calloutLead? ((calloutLead?_content h).trans hl) hnode
  | none =>
    cases permalinkId? e with
    | some id =>
      simp only [List.flatMap_append, List.flatMap_singleton, matchedSites_permalinkAnchor,
        List.append_nil]
    | none => rfl

theorem map_face_rewritten (nodes : List Node) :
    (nodes.map (rewritten config)).map Node.face = nodes.map Node.face := by
  rw [List.map_map]
  exact List.map_congr_left fun node _ => face_rewritten node

/-- The rules of an element do not make it match, nor do they stop it from matching. -/
theorem matched_rewrittenElement (e : Element) :
    (Site.element (rewrittenElement config e)).matched = (Site.element e).matched := by
  rw [Site.matched, Site.matched, rewrittenElement, permalinkId?_restyled,
    calloutLead?_restyled (map_face_rewritten e.children), Option.isSome_map]

mutual

/-- The matched sites after a run are those before it, each as the run leaves it. -/
theorem matchedSites_rewritten : ∀ node : Node,
    matchedSites (rewritten config node) = (matchedSites node).map (Site.rewritten config)
  | .root children extra => by
    have hbelow := flatMap_matchedSites_rewrittenAll children
    have hcontain : ((rewrittenAll config children).map (contain config)).flatMap matchedSites =
        (rewrittenAll config children).flatMap matchedSites := by
      rw [List.flatMap_map]
      exact List.flatMap_congr fun node _ => matchedSites_contain node
    rw [rewritten, matchedSites_root, matchedSites_root, hcontain, hbelow]
    rfl
  | .element tag properties children extra => by
    -- the rules of the element act on content that is rewritten, with the faces of its own content
    have hbelow := flatMap_matchedSites_rewrittenAll children
    have hnode : rewritten config (.element tag properties children extra) =
        (rewrittenElement config ⟨tag, properties, children, extra⟩).toNode := by
      rw [rewritten, rewrittenAll_eq_map]
      rfl
    have hcontent : (rewrittenElement config ⟨tag, properties, children, extra⟩).children.flatMap
        matchedSites = (children.flatMap matchedSites).map (Site.rewritten config) := by
      rw [← hbelow, rewrittenAll_eq_map]
      exact flatMap_matchedSites_restyle (map_face_rewritten children)
    have hbefore := matchedSites_element ⟨tag, properties, children, extra⟩
    rw [Element.toNode] at hbefore
    rw [hnode, hbefore, matchedSites_element, matched_rewrittenElement, hcontent]
    split <;> rfl
  | .text .. => by
    rw [rewritten]
    rfl
  | .other .. => by
    rw [rewritten]
    rfl

theorem flatMap_matchedSites_rewrittenAll : ∀ nodes : List Node,
    (rewrittenAll config nodes).flatMap matchedSites =
      (nodes.flatMap matchedSites).map (Site.rewritten config)
  | [] => by
    rw [rewrittenAll]
    rfl
  | node :: rest => by
    rw [rewrittenAll, List.flatMap_cons, List.flatMap_cons, List.map_append,
      matchedSites_rewritten node, flatMap_matchedSites_rewrittenAll rest]

end

/-! ### What runs count -/

theorem total_filter_matched (list : List Site) : total (list.filter Site.matched) = total list := by
  induction list with
  | nil => rfl
  | cons s list ih =>
    cases hs : s.matched with
    | true => rw [List.filter_cons_of_pos hs, total_cons, total_cons, ih]
    | false =>
      -- where no rule has something to do, nothing is counted
      have htally : s.tally = ⟨0, 0, 0⟩ := by
        cases s with
        | root r => cases hs
        | element e =>
          obtain ⟨hid, hlead⟩ := Bool.or_eq_false_iff.1 hs
          rw [Site.tally, hid, hlead]
          rfl
      rw [List.filter_cons_of_neg (by simp [hs]), total_cons, htally, ih, Tally.zero_add]

theorem tablePositions_contained (nodes : List Node) :
    tablePositions (nodes.map (contain config)) = [] := by
  rw [tablePositions, List.map_eq_nil_iff, List.filter_eq_nil_iff]
  rintro ⟨node, i⟩ hmem
  obtain ⟨before, -, rfl⟩ := List.mem_map.1 (List.fst_mem_of_mem_zipIdx hmem)
  exact Bool.eq_false_iff.1 (isTable_contain before)

/-- After a run the rules count at a site what they counted before, but no table. -/
theorem tally_rewritten (s : Site) :
    (s.rewritten config).tally = { s.tally with tables := 0 } := by
  cases s with
  | root r => rw [Site.rewritten, Site.tally, rewrittenTree, tablePositions_contained]; rfl
  | element e =>
    rw [Site.rewritten, Site.tally, rewrittenElement, permalinkId?_restyled,
      calloutLead?_restyled (map_face_rewritten e.children), Option.isSome_map]
    rfl

theorem total_map_rewritten (list : List Site) :
    total (list.map (Site.rewritten config)) = { total list with tables := 0 } := by
  induction list with
  | nil => rfl
  | cons s list ih => rw [List.map_cons, total_cons, total_cons, ih, tally_rewritten]; rfl

theorem total_sites_rewritten (node : Node) :
    total (sites (rewritten config node)) = { total (sites node) with tables := 0 } := by
  rw [← total_filter_matched, ← total_filter_matched (sites node), ← total_map_rewritten]
  exact congrArg total (matchedSites_rewritten node)

/-! ### Runs as repeated rewriting -/

/-- The tree after the given number of runs. -/
def afterRuns (config : Config) (runs : Nat) (r : Root) : Root :=
  (fun r => (run config r).root)^[runs] r

theorem afterRuns_eq (h : config.strictCallouts = false) (runs : Nat) (r : Root) :
    afterRuns config runs r = (rewrittenTree config)^[runs] r := by
  have hrun : (fun r => (run config r).root) = rewrittenTree config :=
    funext fun r => run_root_of_not_failed (run_failure_of_lenient h r)
  rw [afterRuns, hrun]

theorem toNode_afterRuns (h : config.strictCallouts = false) (runs : Nat) (r : Root) :
    (afterRuns config runs r).toNode = (rewritten config)^[runs] r.toNode := by
  rw [afterRuns_eq h]
  exact Function.Semiconj.iterate_right toNode_rewrittenTree runs r

theorem matchedSites_iterate (runs : Nat) (node : Node) :
    matchedSites ((rewritten config)^[runs] node) =
      (matchedSites node).map (Site.rewritten config)^[runs] := by
  induction runs with
  | zero => exact (List.map_id _).symm
  | succ runs ih =>
    rw [Function.iterate_succ_apply', matchedSites_rewritten, ih, List.map_map,
      Function.iterate_succ']

theorem total_iterate (runs : Nat) (node : Node) :
    total (sites ((rewritten config)^[runs + 1] node)) = { total (sites node) with tables := 0 } := by
  induction runs with
  | zero => exact total_sites_rewritten node
  | succ runs ih => rw [Function.iterate_succ_apply', total_sites_rewritten, ih]

/-! ### What runs leave of a root -/

theorem iterate_rewrittenTree (runs : Nat) (r : Root) :
    (rewrittenTree config)^[runs + 1] r =
      ⟨r.children.map fun node => contain config ((rewritten config)^[runs + 1] node), r.extra⟩ := by
  induction runs with
  | zero =>
    rw [Function.iterate_one, rewrittenTree, rewrittenAll_eq_map, List.map_map]
    rfl
  | succ runs ih =>
    rw [Function.iterate_succ_apply', ih, rewrittenTree, rewrittenAll_eq_map, List.map_map,
      List.map_map]
    refine congrArg (Root.mk · r.extra) (List.map_congr_left fun node _ => ?_)
    -- the container of an earlier run stays, and no other one is put around it
    rw [Function.comp, Function.comp, rewritten_contain, contain_contain,
      Function.iterate_succ_apply' _ (runs + 1)]

/-! ### What runs leave of a heading -/

/-- The element is a heading with the given identifier after a number of runs: they have put a
permalink each behind its content. -/
structure HeadingAfter (config : Config) (runs : Nat) (e : Element) (target : String)
    (after : Element) : Prop where
  tag : after.tag = e.tag
  id : after.property? "id" = e.property? "id"
  class_ : 0 < runs → after.property? "class" = some (.string config.headingClass)
  children : after.children =
    e.children.map (rewritten config)^[runs] ++ List.replicate runs (permalinkAnchor config target)

theorem calloutLead?_of_permalinkId? {e : Element} {id : String} (h : permalinkId? e = some id) :
    calloutLead? e = none := by
  cases hl : calloutLead? e with
  | none => rfl
  | some lead =>
    rw [permalinkId?_of_calloutLead? hl] at h
    cases h

theorem restyled_of_permalinkId? {e : Element} {id : String} (h : permalinkId? e = some id)
    (content : List Node) :
    restyled config e content =
      ((Element.mk e.tag e.properties content e.extra).insertProperty "class"
        (.string config.headingClass)).append [permalinkAnchor config id] := by
  rw [restyled, reclass, restyle, calloutLead?_of_permalinkId? h, h]
  rfl

theorem property?_insertProperty (e : Element) (name other : String) (value : PropertyValue) :
    (e.insertProperty name value).property? other =
      if name = other then some value else e.property? other := by
  have hmap : e.propertyMap.get? other = e.property? other := by
    rw [Element.property?, Element.propertyMap]
    cases e.properties <;> rfl
  rw [Element.property?, Element.insertProperty, Option.bind_some, Properties.get?_insert, hmap]

theorem permalinkId?_of_headingAfter {runs : Nat} {e after : Element} {id : String}
    (h : HeadingAfter config runs e id after) : permalinkId? after = permalinkId? e := by
  rw [permalinkId?_eq, permalinkId?_eq, h.tag, h.id]

/-- One more run of a heading. -/
theorem headingAfter_step {runs : Nat} {e after : Element} {id : String}
    (hid : permalinkId? e = some id) (h : HeadingAfter config runs e id after) :
    HeadingAfter config (runs + 1) e id (rewrittenElement config after) := by
  have hafter : permalinkId? after = some id := (permalinkId?_of_headingAfter h).trans hid
  rw [rewrittenElement, restyled_of_permalinkId? hafter]
  refine ⟨h.tag, ?_, fun _ => ?_, ?_⟩
  · rw [← h.id]
    exact property?_insertProperty ..
  · exact property?_insertProperty ..
  · -- the anchors of earlier runs are passed by, and one is added
    have hanchors : (List.replicate runs (permalinkAnchor config id)).map (rewritten config) =
        List.replicate runs (permalinkAnchor config id) := by
      rw [List.map_replicate, rewritten_permalinkAnchor]
    simp only [Element.append, Element.insertProperty, h.children, List.map_append, List.map_map,
      hanchors, List.append_assoc, List.replicate_succ', Function.iterate_succ']

theorem headingAfter_iterate {e : Element} {id : String} (hid : permalinkId? e = some id)
    (runs : Nat) : HeadingAfter config runs e id ((rewrittenElement config)^[runs] e) := by
  induction runs with
  | zero =>
    refine ⟨rfl, rfl, fun h => absurd h (Nat.lt_irrefl 0), ?_⟩
    simp
  | succ runs ih =>
    rw [Function.iterate_succ_apply']
    exact headingAfter_step hid ih

/-! ### What runs leave of a callout -/

/-- The classes that a number of runs give to a callout: one group for every run, for the lead text
that the run finds. -/
def classGroups (config : Config) (runs : Nat) (lead : String) : List String :=
  (List.range runs).flatMap fun k => classGroup config (strippedLead^[k] lead)

/-- The markers that a number of runs take off a lead text, in order. -/
def markersTaken (runs : Nat) (lead : String) : List String :=
  (List.range runs).flatMap fun k => (markersAt markerClasses (strippedLead^[k] lead)).map (·.1)

/-- The element is a callout with the given lead text after a number of runs. -/
structure CalloutAfter (config : Config) (runs : Nat) (e : Element) (i : Nat) (lead : String)
    (after : Element) : Prop where
  callout : IsCallout after i (strippedLead^[runs] lead)
  class_ : 0 < runs → after.property? "class" = some (.string
    (String.intercalate " " (classText (e.property? "class") ++ classGroups config runs lead)))
  spelled : String.join (markersTaken runs lead) ++ strippedLead^[runs] lead = lead

theorem spelled_markersTaken (runs : Nat) (lead : String) :
    String.join (markersTaken runs lead) ++ strippedLead^[runs] lead = lead := by
  induction runs with
  | zero => exact String.empty_append
  | succ runs ih =>
    have hrun := join_markersAt markerClasses (strippedLead^[runs] lead)
    rw [markersTaken, List.range_succ, List.flatMap_append, List.flatMap_singleton,
      String.join_append, String.append_assoc, Function.iterate_succ_apply']
    exact (congrArg (String.join (markersTaken runs lead) ++ ·) hrun).trans ih

theorem property?_rewrittenElement_class {e : Element} {i : Nat} {lead : String}
    (h : calloutLead? e = some (i, lead)) :
    (rewrittenElement config e).property? "class" = some (.string
      (String.intercalate " " (classText (e.property? "class") ++ classGroup config lead))) := by
  rw [← calloutClass_eq, rewrittenElement, restyled, reclass, h]
  exact (Properties.get?_insert ..).trans (if_pos rfl)

/-- One more run of a callout. -/
theorem calloutAfter_step {runs : Nat} {e after : Element} {i : Nat} {lead : String}
    (h : CalloutAfter config runs e i lead after)
    (hclass : runs = 0 → after.property? "class" = e.property? "class") :
    CalloutAfter config (runs + 1) e i lead (rewrittenElement config after) := by
  have hlead := calloutLead?_eq_some_iff.2 h.callout
  refine ⟨?_, fun _ => ?_, spelled_markersTaken (runs + 1) lead⟩
  · rw [← calloutLead?_eq_some_iff, rewrittenElement,
      calloutLead?_restyled (map_face_rewritten after.children), hlead, Option.map_some,
      Function.iterate_succ_apply']
  · have hgroups : classGroups config (runs + 1) lead =
        classGroups config runs lead ++ classGroup config (strippedLead^[runs] lead) := by
      rw [classGroups, List.range_succ, List.flatMap_append, List.flatMap_singleton]
      rfl
    rw [property?_rewrittenElement_class hlead, hgroups]
    cases runs with
    | zero => rw [hclass rfl]; rfl
    | succ runs =>
      -- the class of the earlier runs is split and joined again as one text
      have hne : classText (e.property? "class") ++ classGroups config (runs + 1) lead ≠ [] := by
        simp [classGroups, List.range_succ, classGroup]
      rw [h.class_ (Nat.succ_pos _), ← List.append_assoc, ← intercalate_intercalate hne]
      rfl

theorem calloutAfter_iterate {e : Element} {i : Nat} {lead : String} (h : IsCallout e i lead)
    (runs : Nat) : CalloutAfter config runs e i lead ((rewrittenElement config)^[runs] e) := by
  induction runs with
  | zero => exact ⟨h, fun h => absurd h (Nat.lt_irrefl 0), spelled_markersTaken 0 lead⟩
  | succ runs ih =>
    rw [Function.iterate_succ_apply']
    refine calloutAfter_step ih ?_
    rintro rfl
    rfl

/-! ### What runs leave of a tree -/

/-- How a matched site and the one that a number of runs leave of it belong together. -/
inductive AfterRuns (config : Config) (runs : Nat) : Site → Site → Prop
  /-- Every table in the content has one container, whatever the number of runs. -/
  | root (r : Root) : AfterRuns config runs (.root r)
      (.root ⟨r.children.map fun node => contain config ((rewritten config)^[runs] node), r.extra⟩)
  | heading (e : Element) (target : String) (after : Element) :
      permalinkId? e = some target → HeadingAfter config runs e target after →
      AfterRuns config runs (.element e) (.element after)
  | callout (e : Element) (i : Nat) (lead : String) (after : Element) :
      IsCallout e i lead → CalloutAfter config runs e i lead after →
      AfterRuns config runs (.element e) (.element after)

theorem afterRuns_iterate {s : Site} (h : s.matched = true) (runs : Nat) :
    AfterRuns config (runs + 1) s ((Site.rewritten config)^[runs + 1] s) := by
  cases s with
  | root r =>
    have hsite : (Site.rewritten config)^[runs + 1] (.root r) =
        .root ((rewrittenTree config)^[runs + 1] r) :=
      (Function.Semiconj.iterate_right (f := Site.root) (fun _ => rfl) (runs + 1) r).symm
    rw [hsite, iterate_rewrittenTree]
    exact .root r
  | element e =>
    have hsite : (Site.rewritten config)^[runs + 1] (.element e) =
        .element ((rewrittenElement config)^[runs + 1] e) :=
      (Function.Semiconj.iterate_right (f := Site.element) (fun _ => rfl) (runs + 1) e).symm
    rw [hsite]
    rcases Site.matched_element_iff.1 h with ⟨id, hid⟩ | ⟨i, lead, hcallout⟩
    · exact .heading e id _ hid (headingAfter_iterate hid (runs + 1))
    · exact .callout e i lead _ hcallout (calloutAfter_iterate hcallout (runs + 1))

/-- No root that runs leave has a table in its content. -/
theorem isTable_of_root_mem {node : Node} {runs : Nat} {r : Root}
    (h : Site.root r ∈ sites ((rewritten config)^[runs + 1] node)) :
    ∀ child ∈ r.children, isTable child = false := by
  -- roots are matched, so this one is what the last run has left of a root
  have hmatched : Site.root r ∈ matchedSites ((rewritten config)^[runs + 1] node) :=
    List.mem_filter.2 ⟨h, rfl⟩
  rw [Function.iterate_succ_apply', matchedSites_rewritten] at hmatched
  obtain ⟨s, -, hs⟩ := List.mem_map.1 hmatched
  cases s with
  | element e => cases hs
  | root before =>
    cases hs
    intro child hchild
    obtain ⟨inner, -, rfl⟩ := List.mem_map.1 hchild
    exact isTable_contain inner

/-- **What repeated runs count and leave.**  No lenient run fails.  All count the same headings and
callouts, and the first one alone counts tables; after it no root has a table in its content.  The
roots, headings and callouts stay what they are, in their order: tables have one container, headings
one permalink for every run and callouts one group of classes for every run, and the markers taken
off a lead text in all runs spell it with what is left. -/
theorem run_afterRuns (config : Config) (r : Root) (h : config.strictCallouts = false)
    (runs : Nat) :
    (run config (afterRuns config runs r)).failure = none ∧
    (run config (afterRuns config runs r)).tally =
      ⟨(run config r).tally.headings, (run config r).tally.callouts,
        if runs = 0 then (run config r).tally.tables else 0⟩ ∧
    (afterRuns config (runs + 1) r).toNode = (rewritten config)^[runs + 1] r.toNode ∧
    (∀ root, Site.root root ∈ sites (afterRuns config (runs + 1) r).toNode →
      ∀ child ∈ root.children, isTable child = false) ∧
    List.Forall₂ (AfterRuns config (runs + 1)) (matchedSites r.toNode)
      (matchedSites (afterRuns config (runs + 1) r).toNode) := by
  have hfailure := run_failure_of_lenient h
  refine ⟨hfailure _, ?_, toNode_afterRuns h (runs + 1) r, fun root hroot => ?_, ?_⟩
  · rw [run_tally_eq_total (hfailure _), run_tally_eq_total (hfailure r), toNode_afterRuns h]
    cases runs with
    | zero => rfl
    | succ runs => rw [total_iterate]; rfl
  · rw [toNode_afterRuns h] at hroot
    exact isTable_of_root_mem hroot
  · rw [toNode_afterRuns h, matchedSites_iterate, List.forall₂_map_right_iff, List.forall₂_same]
    intro s hs
    exact afterRuns_iterate (List.mem_filter.1 hs).2 runs

/-- A heading, a callout with both markers in the wrong order, and a table. -/
def sampleRepeated : Root where
  children :=
    [.element "h2" (some (Properties.empty.insert "id" (.string "a"))) [.ofText "A"] .empty,
      .element "blockquote" (some .empty)
        [.element "p" none [.ofText "(red)(warn) text"] .empty] .empty,
      .element "table" none [] .empty]
  extra := .empty

/-- The second run takes the marker that the first one left. -/
theorem run_afterRuns_sampleRepeated :
    (run {} (afterRuns {} 1 sampleRepeated)).tally = ⟨1, 1, 0⟩ ∧
      List.Forall₂ (AfterRuns {} 2) (matchedSites sampleRepeated.toNode)
        (matchedSites (afterRuns {} 2 sampleRepeated).toNode) ∧
      strippedLead^[2] "(red)(warn) text" = " text" := by
  obtain ⟨-, htally, -, -, hsites⟩ := run_afterRuns {} sampleRepeated rfl 1
  refine ⟨?_, hsites, by decide⟩
  rw [htally]
  decide

end DocTree.Docs
