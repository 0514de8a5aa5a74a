import DocTree.Proofs.Docs.Stopped
import DocTree.Proofs.Docs.Totals
import Mathlib.Data.List.Sort

/-!
# What a run reports

Every site of the tree before a run has its own part in what the run reports, and `Reports` says
which, without a look at what the rules have changed by then.  A run puts these parts together in the
order of the sites: all of them, with a summary behind, if it comes to the end of the tree, and in
strict mode those before the first deficient blockquote (`run_events`).

As for the tree that a run leaves (`sweep_value_eq_applied`), one equation covers the walks that end
and those that stop: a walk reports what the sites before the first fault report.
-/

namespace DocTree.Docs

/-! ### The part of a site -/

/-- The events that a site has in the report of a run. -/
inductive Reports (config : Config) : Site → List Event → Prop where
  /-- A root has one for every table directly under it, in the order of their positions. -/
  | root {r : Root} {positions : List Nat} (ascending : positions.Pairwise (· < ·))
      (tables : ∀ i, i ∈ positions ↔ ∃ properties children extra,
        r.children[i]? = some (.element "table" properties children extra)) :
      Reports config (.root r) (positions.map .wrappedTable)
  /-- A callout has one with the class that the rules give it. -/
  | callout {e : Element} {i : Nat} {lead class_ : String} (callout : IsCallout e i lead)
      (written : (ruled config.lenient e).property? "class" = some (.string class_)) :
      Reports config (.element e) [.styledCallout class_]
  /-- A deficient blockquote has one with the place of its paragraph. -/
  | deficient {e : Element} {i : Nat} (deficient : Deficient e i) :
      Reports config (.element e) [.skippedCallout i]
  /-- A heading with an identifier has one with its tag and the text of the identifier. -/
  | heading {e : Element} {id : PropertyValue} (tag : e.tag ∈ permalinkTags)
      (given : e.property? "id" = some id) (present : id.isPresent = true) :
      Reports config (.element e) [.addedPermalink e.tag id.text]
  /-- Any other element has none. -/
  | nothing {e : Element} (nocallout : ∀ i lead, ¬ IsCallout e i lead)
      (sufficient : ∀ i, ¬ Deficient e i)
      (noheading : e.tag ∈ permalinkTags → ∀ id ∈ e.property? "id", id.isPresent = false) :
      Reports config (.element e) []

/-- What the rules report at a site. -/
def Site.events (config : Config) : Site → List Event
  | root r => (tablePositions r.children).map .wrappedTable
  | element e => (styledCallout config e).events ++ (linkHeading config e).events

variable {config : Config} {e : Element}

theorem mem_tablePositions_iff {nodes : List Node} {i : Nat} :
    i ∈ tablePositions nodes ↔ ∃ properties children extra,
      nodes[i]? = some (.element "table" properties children extra) := by
  have hmem : i ∈ tablePositions nodes ↔ ∃ node, nodes[i]? = some node ∧ isTable node = true := by
    simp [tablePositions, List.mem_zipIdx_iff_getElem?]
  rw [hmem]
  constructor
  · rintro ⟨node, hnode, htable⟩
    obtain ⟨properties, children, extra, rfl⟩ := isTable_iff.1 htable
    exact ⟨properties, children, extra, hnode⟩
  · rintro ⟨properties, children, extra, hnode⟩
    exact ⟨_, hnode, isTable_iff.2 ⟨properties, children, extra, rfl⟩⟩

theorem ascending_tablePositions (nodes : List Node) :
    (tablePositions nodes).Pairwise (· < ·) := by
  have hall : (nodes.zipIdx.map (·.2)).Pairwise (· < ·) := by
    rw [List.zipIdx_map_snd]
    exact List.pairwise_lt_range'
  exact hall.sublist (List.filter_sublist.map _)

theorem deficient_iff {i : Nat} :
    Deficient e i ↔ calloutParagraph? e = some i ∧ calloutLead? e = none := by
  have hstrict : (Config.strict {}).strictCallouts = true := rfl
  rw [← @fault?_eq_some_iff _ hstrict e ⟨i⟩, fault?]
  cases calloutParagraph? e <;> cases calloutLead? e <;> simp [hstrict]

theorem events_of_calloutLead? {i : Nat} {lead : String} (h : calloutLead? e = some (i, lead)) :
    (Site.element e).events config = [.styledCallout (calloutClass config e lead)] := by
  have hparagraph := calloutParagraph?_of_calloutLead? h
  rw [Site.events, styledCallout, hparagraph, h,
    linkHeading_of_tag config (tag_of_calloutParagraph? hparagraph)]
  rfl

theorem events_of_deficient {i : Nat} (h : Deficient e i) :
    (Site.element e).events config = [.skippedCallout i] := by
  obtain ⟨hparagraph, hlead⟩ := deficient_iff.1 h
  rw [Site.events, styledCallout, hparagraph, hlead,
    linkHeading_of_tag config (tag_of_calloutParagraph? hparagraph)]
  rfl

theorem events_of_calloutParagraph?_eq_none (h : calloutParagraph? e = none) :
    (Site.element e).events config = (linkHeading config e).events := by
  rw [Site.events, styledCallout, h]
  rfl

theorem calloutParagraph?_of_permalinkId? {id : String} (h : permalinkId? e = some id) :
    calloutParagraph? e = none := by
  by_contra hsome
  obtain ⟨i, hi⟩ := Option.ne_none_iff_exists'.1 hsome
  rw [permalinkId?_of_tag (tag_of_calloutParagraph? hi)] at h
  cases h

theorem events_of_permalinkId? {id : String} (h : permalinkId? e = some id) :
    (Site.element e).events config = [.addedPermalink e.tag id] := by
  rw [events_of_calloutParagraph?_eq_none (calloutParagraph?_of_permalinkId? h), linkHeading, h]

/-- The rules write the class of a callout. -/
theorem property?_class_ruled {i : Nat} {lead : String} (h : calloutLead? e = some (i, lead)) :
    (ruled config.lenient e).property? "class" =
      some (.string (calloutClass config e lead)) := by
  rw [ruled_lenient, restyled, reclass, h]
  simp [Element.property?, Properties.get?_insert]

/-- An element is a callout, or a deficient blockquote, or of no interest to the callout rule. -/
theorem calloutParagraph?_eq_none_iff : calloutParagraph? e = none ↔
    (∀ i lead, ¬ IsCallout e i lead) ∧ ∀ i, ¬ Deficient e i := by
  simp only [← calloutLead?_eq_some_iff, deficient_iff]
  constructor
  · intro hnone
    refine ⟨fun i lead hlead => ?_, fun i hi => ?_⟩
    · rw [calloutParagraph?_of_calloutLead? hlead] at hnone
      cases hnone
    · rw [hi.1] at hnone
      cases hnone
  · rintro ⟨hlead, hdeficient⟩
    by_contra hsome
    obtain ⟨i, hi⟩ := Option.ne_none_iff_exists'.1 hsome
    refine hdeficient i ⟨hi, Option.eq_none_iff_forall_ne_some.2 ?_⟩
    exact fun lead => hlead lead.1 lead.2

theorem permalinkId?_eq_none_iff : permalinkId? e = none ↔
    (e.tag ∈ permalinkTags → ∀ id ∈ e.property? "id", id.isPresent = false) := by
  simp only [Option.eq_none_iff_forall_ne_some, Ne, permalinkId?_eq_some_iff]
  constructor
  · intro hnone tag id given
    by_contra hpresent
    exact hnone id.text ⟨tag, id, given, by simpa using hpresent, rfl⟩
  · rintro habsent text ⟨tag, id, given, present, -⟩
    rw [habsent tag id given] at present
    cases present

theorem reports_events (config : Config) (s : Site) : Reports config s (s.events config) := by
  -- the rules in the order in which they are tried
  cases s with
  | root r => exact .root (ascending_tablePositions _) fun i => mem_tablePositions_iff
  | element e =>
    cases hid : permalinkId? e with
    | some id =>
      obtain ⟨tag, id, given, present, rfl⟩ := permalinkId?_eq_some_iff.1 hid
      rw [events_of_permalinkId? hid]
      exact .heading tag given present
    | none =>
      cases hlead : calloutLead? e with
      | some found =>
        rw [events_of_calloutLead? hlead]
        exact .callout (calloutLead?_eq_some_iff.1 hlead) (property?_class_ruled hlead)
      | none =>
        cases hparagraph : calloutParagraph? e with
        | some i =>
          have hdeficient := deficient_iff.2 ⟨hparagraph, hlead⟩
          rw [events_of_deficient hdeficient]
          exact .deficient hdeficient
        | none =>
          obtain ⟨nocallout, sufficient⟩ := calloutParagraph?_eq_none_iff.1 hparagraph
          rw [events_of_calloutParagraph?_eq_none hparagraph, linkHeading, hid]
          exact .nothing nocallout sufficient (permalinkId?_eq_none_iff.1 hid)

/-- The part of a site in the report is what the rules report at it. -/
theorem reports_iff {s : Site} {events : List Event} :
    Reports config s events ↔ events = s.events config := by
  refine ⟨?_, fun h => h ▸ reports_events config s⟩
  -- one way to report for every rule and every reason for which none applies
  rintro (⟨ascending, tables⟩ | ⟨callout, written⟩ | deficient | ⟨tag, given, present⟩ |
    ⟨nocallout, sufficient, noheading⟩)
  case root =>
    have heq := ascending.eq_of_mem_iff (ascending_tablePositions _) fun i =>
      (tables i).trans mem_tablePositions_iff.symm
    rw [heq, Site.events]
  case callout =>
    have hlead := calloutLead?_eq_some_iff.2 callout
    rw [property?_class_ruled hlead] at written
    cases written
    exact (events_of_calloutLead? hlead).symm
  case deficient => exact (events_of_deficient deficient).symm
  case heading =>
    have hid := permalinkId?_eq_some_iff.2 ⟨tag, _, given, present, rfl⟩
    exact (events_of_permalinkId? hid).symm
  case nothing =>
    have hparagraph := calloutParagraph?_eq_none_iff.2 ⟨nocallout, sufficient⟩
    rw [events_of_calloutParagraph?_eq_none hparagraph, linkHeading,
      permalinkId?_eq_none_iff.2 noheading]
    rfl

/-! ### The parts put together -/

theorem events_addTables (p : Progress) (r : Root) :
    (p.addTables (containTables config r)).events = p.events ++ (Site.root r).events config := rfl

theorem events_addElement (p : Progress) (e : Element) :
    (p.addElement config e).events = p.events ++ (Site.element e).events config :=
  List.append_assoc ..

/-- What the sites before the first fault report. -/
def reported (config : Config) (list : List Site) : List Event :=
  (list.take (faultless config list)).flatMap (Site.events config)

theorem reported_cons_of_none {s : Site} {list : List Site} (h : s.fault? config = none) :
    reported config (s :: list) = s.events config ++ reported config list := by
  rw [reported, faultless_cons_of_none h, List.take_succ_cons, List.flatMap_cons]
  rfl

theorem reported_cons_of_some {s : Site} {list : List Site} {missing : MissingLeadText}
    (h : s.fault? config = some missing) : reported config (s :: list) = [] := by
  rw [reported, faultless_cons_of_some h]
  rfl

theorem reported_of_none {list : List Site} (h : list.findSome? (Site.fault? config) = none) :
    reported config list = list.flatMap (Site.events config) := by
  rw [reported, faultless_eq_length_iff.2 h, List.take_length]

theorem reported_append_of_none {before after : List Site}
    (h : before.findSome? (Site.fault? config) = none) :
    reported config (before ++ after) = reported config before ++ reported config after := by
  rw [reported_of_none h, reported, faultless_append_of_none h, List.take_length_add_append,
    List.flatMap_append]
  rfl

theorem reported_append_of_some {before : List Site} (after : List Site)
    {missing : MissingLeadText} (h : before.findSome? (Site.fault? config) = some missing) :
    reported config (before ++ after) = reported config before := by
  obtain ⟨hfirst, hlt⟩ := faultless_append_of_some after h
  rw [reported, hfirst, List.take_append_of_le_length (Nat.le_of_lt hlt)]
  rfl

mutual

-- Where the walk stops, it has reported nothing at the site that stops it, and goes to no other.
theorem sweep_events : ∀ (node : Node) (p : Progress),
    (sweep config p node).state.events = p.events ++ reported config (sites node)
  | .root children extra, p => by
    rw [sweep, sites, reported_cons_of_none rfl, ← List.append_assoc, ← events_addTables]
    exact sweepAll_events children _
  | .element tag properties children extra, p => by
    rw [sweep, sites]
    cases hfault : fault? config ⟨tag, properties, children, extra⟩ with
    | some missing =>
      have hsite : Site.fault? config (.element ⟨tag, properties, children, extra⟩) = some missing :=
        hfault
      rw [reported_cons_of_some hsite, List.append_nil]
    | none =>
      have hsite : Site.fault? config (.element ⟨tag, properties, children, extra⟩) = none := hfault
      rw [reported_cons_of_none hsite, ← List.append_assoc, ← events_addElement]
      exact sweepAll_events children _
  | .text .., p => by
    rw [sweep, sites]
    exact (List.append_nil _).symm
  | .other .., p => by
    rw [sweep, sites]
    exact (List.append_nil _).symm

theorem sweepAll_events : ∀ (nodes : List Node) (p : Progress),
    (sweepAll config p nodes).state.events = p.events ++ reported config (sitesAll nodes)
  | [], p => by
    rw [sweepAll, sitesAll]
    exact (List.append_nil _).symm
  | node :: rest, p => by
    have hnode := sweep_events node p
    have hstop := @sweep_stop config node p
    rw [sweepAll, sitesAll]
    cases hs : (sweep config p node).stop with
    | none =>
      rw [hs] at hstop
      rw [reported_append_of_none hstop.symm, ← List.append_assoc, ← hnode]
      exact sweepAll_events rest _
    | some missing =>
      rw [hs] at hstop
      rw [reported_append_of_some _ hstop.symm, ← hnode]

end

/-- What a run reports: the parts of the sites before the first fault, and a summary if there is no
fault. -/
theorem run_events_eq (config : Config) (r : Root) :
    (run config r).events = reported config (sites r.toNode) ++
      if (run config r).failure = none then [.finished (run config r).tally] else [] := by
  have hsweep := @sweep_events config r.toNode .start
  rw [Root.toNode, sweep] at hsweep
  have hstate : (sweepTree config .start r).state.events =
      reported config (sites r.toNode) := hsweep
  rw [run_report, hstate]

/-! ### The counts -/

/-- The numbers of the changes that are among events. -/
def Tally.ofEvents (events : List Event) : Tally where
  headings := events.countP (· matches .addedPermalink ..)
  callouts := events.countP (· matches .styledCallout _)
  tables := events.countP (· matches .wrappedTable _)

theorem Tally.ofEvents_append (before after : List Event) :
    ofEvents (before ++ after) = ofEvents before + ofEvents after := by
  simp only [ofEvents, List.countP_append]
  rfl

theorem ofEvents_wrappedTable (positions : List Nat) :
    Tally.ofEvents (positions.map .wrappedTable) = ⟨0, 0, positions.length⟩ := by
  simp [Tally.ofEvents, List.countP_map, Function.comp_def]

/-- What the rules report at a site is what they count there. -/
theorem ofEvents_events (s : Site) : Tally.ofEvents (s.events config) = s.tally := by
  cases s with
  | root r => exact ofEvents_wrappedTable _
  | element e =>
    have hlinked : Tally.ofEvents (linkHeading config e).events =
        ⟨if (permalinkId? e).isSome then 1 else 0, 0, 0⟩ := by
      unfold linkHeading
      cases permalinkId? e <;> rfl
    have hstyled : Tally.ofEvents (styledCallout config e).events =
        ⟨0, if (calloutLead? e).isSome then 1 else 0, 0⟩ := by
      unfold styledCallout
      cases hp : calloutParagraph? e with
      | none =>
        have hlead : calloutLead? e = none := by simp [calloutLead?, hp]
        rw [hlead]
        rfl
      | some i => cases calloutLead? e <;> rfl
    rw [Site.events, Tally.ofEvents_append, hlinked, hstyled]
    exact congrArg (Tally.mk · _ 0) (Nat.zero_add _)

theorem ofEvents_flatMap (list : List Site) :
    Tally.ofEvents (list.flatMap (Site.events config)) = total list := by
  induction list with
  | nil => rfl
  | cons s list ih =>
    rw [List.flatMap_cons, Tally.ofEvents_append, ofEvents_events, ih, total_cons]

/-- **What a run reports can be read off the tree before it.**  It is what the sites have to report,
one after the other; a run that comes to its end adds a summary, which has the numbers of the changes
reported before, and a run that is stopped reports nothing of the blockquote that stops it, nor of a
site behind that. -/
theorem run_events (config : Config) (r : Root) :
    (∀ s events, Reports config s events ↔ events = s.events config) ∧
    (config.strictCallouts = false ∨ (∀ s ∈ sites r.toNode, ¬ s.Deficient) →
      (run config r).failure = none ∧
      (run config r).tally = .ofEvents ((sites r.toNode).flatMap (Site.events config)) ∧
      (run config r).events =
        (sites r.toNode).flatMap (Site.events config) ++ [.finished (run config r).tally]) ∧
    (config.strictCallouts = true → ∀ before e after i,
      sites r.toNode = before ++ .element e :: after → (∀ s ∈ before, ¬ s.Deficient) →
      Deficient e i →
      (run config r).failure = some ⟨i⟩ ∧
      (run config r).events = before.flatMap (Site.events config)) := by
  refine ⟨fun s events => reports_iff, fun h => ?_, fun hstrict before e after i hsites hb he => ?_⟩
  · have hnone : ∀ s ∈ sites r.toNode, s.fault? config = none := by
      intro s hs
      cases hstrict : config.strictCallouts with
      | false => exact s.fault?_of_lenient hstrict
      | true =>
        refine (Site.fault?_eq_none_iff hstrict).2 (h.resolve_left ?_ s hs)
        simp [hstrict]
    have hfault := List.findSome?_eq_none_iff.2 hnone
    have hfailure : (run config r).failure = none := (run_failure_eq config r).trans hfault
    refine ⟨hfailure, ?_, ?_⟩
    · rw [run_tally_eq_total hfailure, ofEvents_flatMap]
    · rw [run_events_eq, if_pos hfailure, reported_of_none hfault]
  · have hfailure := (@run_failure_eq_some_iff config hstrict r ⟨i⟩).2
      ⟨before, e, after, hsites, hb, he⟩
    have hbefore : before.findSome? (Site.fault? config) = none :=
      List.findSome?_eq_none_iff.2 fun s hs => (Site.fault?_eq_none_iff hstrict).2 (hb s hs)
    have hfault : Site.fault? config (.element e) = some ⟨i⟩ :=
      (fault?_eq_some_iff hstrict).2 he
    refine ⟨hfailure, ?_⟩
    rw [run_events_eq, hfailure, hsites, reported_append_of_none hbefore,
      reported_cons_of_some hfault, reported_of_none hbefore, List.append_nil]
    exact List.append_nil _

/-- The inner blockquote is passed over, or stops the run; the outer one, which stands before it, has
its part in the report both times. -/
theorem run_events_sampleQuotes :
    (run {} sampleQuotes).events =
      [.wrappedTable 1, .styledCallout "bg-default bq-red", .skippedCallout 1,
        .finished ⟨0, 1, 1⟩] ∧
    (run { strictCallouts := true } sampleQuotes).events =
      [.wrappedTable 1, .styledCallout "bg-default bq-red"] := by
  obtain ⟨-, hlenient, -⟩ := run_events {} sampleQuotes
  obtain ⟨-, htally, hevents⟩ := hlenient (.inl rfl)
  obtain ⟨-, -, hstrict⟩ := run_events { strictCallouts := true } sampleQuotes
  refine ⟨?_, ?_⟩
  · rw [hevents, htally]
    rfl
  · refine (hstrict rfl ((sites sampleQuotes.toNode).take 3) _ _ 1 rfl (fun s hs => ?_) ?_).2.trans rfl
    · have hnone : ∀ s ∈ (sites sampleQuotes.toNode).take 3,
          s.fault? { strictCallouts := true } = none := by decide
      exact (Site.fault?_eq_none_iff rfl).1 (hnone s hs)
    · exact (@fault?_eq_some_iff { strictCallouts := true } rfl _ ⟨1⟩).1 rfl

end DocTree.Docs
