import DocTree.Proofs.Docs.Markers
import DocTree.Proofs.Docs.Reports
import DocTree.Proofs.Property.RoundTrip

/-!
# The callout rule

What the rule of callouts does to an element, said without the functions that do it: an element that
is none is left, a deficient blockquote is left too or stops the walk, and in a callout two values
change, a text and a class (`Styling`).  The rule does this and nothing else (`markCallout_iff`).

A text is searched for a marker and the first occurrence goes; that this is the one at the beginning,
and that a class which is split at its spaces and joined again is the same text, is in
`DocTree.Proofs.Docs.Markers`.
-/

namespace DocTree

namespace Properties

/-- One map is another with a property set: the property keeps its place, or comes last if it is
new. -/
inductive Sets (name : String) (value : PropertyValue) : Properties → Properties → Prop where
  | inPlace {p q : Properties} {before after : List (String × PropertyValue)} {old : PropertyValue}
      (there : p.entries = before ++ (name, old) :: after)
      (written : q.entries = before ++ (name, value) :: after) : Sets name value p q
  | last {p q : Properties} (new : name ∉ p.names)
      (written : q.entries = p.entries ++ [(name, value)]) : Sets name value p q

theorem put_of_append {name : String} {old value : PropertyValue}
    {before after : List (String × PropertyValue)} (h : name ∉ before.map (·.1)) :
    put name value (before ++ (name, old) :: after) = before ++ (name, value) :: after := by
  induction before with
  | nil => exact if_pos rfl
  | cons head before ih =>
    obtain ⟨n, v⟩ := head
    rw [List.map_cons, List.mem_cons, not_or] at h
    rw [List.cons_append, put, if_neg (Ne.symm h.1), ih h.2]
    rfl

/-- No name stands twice, so a property that is set keeps its place. -/
theorem entries_insert_of_there {p : Properties} {name : String} {old : PropertyValue}
    {before after : List (String × PropertyValue)} (there : p.entries = before ++ (name, old) :: after)
    (value : PropertyValue) :
    (p.insert name value).entries = before ++ (name, value) :: after := by
  have hnodup := p.nodup
  rw [there, List.map_append, List.nodup_append] at hnodup
  have hbefore : name ∉ before.map (·.1) :=
    fun hmem => hnodup.2.2 name hmem name List.mem_cons_self rfl
  exact (congrArg (put name value) there).trans (put_of_append hbefore)

theorem eq_of_entries {p q : Properties} (h : p.entries = q.entries) : p = q := by
  obtain ⟨entries, nodup⟩ := p
  obtain rfl : entries = q.entries := h
  rfl

theorem sets_iff {name : String} {value : PropertyValue} {p q : Properties} :
    Sets name value p q ↔ q = p.insert name value := by
  constructor
  · rintro (⟨there, written⟩ | ⟨new, written⟩)
    · exact eq_of_entries (written.trans (entries_insert_of_there there value).symm)
    · exact eq_of_entries (written.trans (put_of_not_mem new).symm)
  · rintro rfl
    by_cases hmem : name ∈ p.names
    · obtain ⟨⟨n, old⟩, hentry, rfl⟩ := List.mem_map.1 hmem
      obtain ⟨before, after, there⟩ := List.append_of_mem hentry
      exact .inPlace there (entries_insert_of_there there value)
    · exact .last hmem (put_of_not_mem hmem)

end Properties

namespace Docs

/-! ### The markers at the beginning of a text -/

/-- The text begins with the given markers, the red one behind the other if both are there, and
`left` is what comes behind them. -/
structure Marked (text : String) (warn red : Bool) (left : String) : Prop where
  spelled : text = (if warn then "(warn)" else "") ++ (if red then "(red)" else "") ++ left
  warn_iff : warn = true ↔ ∃ behind, text = "(warn)" ++ behind
  red_iff : red = true ↔ ∃ behind, text = (if warn then "(warn)" else "") ++ ("(red)" ++ behind)

/-- The classes of the given markers. -/
def markerGroup (warn red : Bool) : List String :=
  (if warn then ["bq-warn"] else []) ++ if red then ["bq-red"] else []

/-- A marker is there or it is not, and if it is then one text is left. -/
theorem isSome_dropMarker?_iff {marker text : String} :
    (dropMarker? marker text).isSome = true ↔ ∃ behind, text = marker ++ behind := by
  rw [Option.isSome_iff_exists]
  exact exists_congr fun behind => dropMarker?_eq_some_iff

theorem takeMarkers_cons (marker class_ : String) (markers : List (String × String))
    (text : String) :
    takeMarkers ((marker, class_) :: markers) text =
      ((if (dropMarker? marker text).isSome then [class_] else []) ++
          (takeMarkers markers ((dropMarker? marker text).getD text)).1,
        (takeMarkers markers ((dropMarker? marker text).getD text)).2) := by
  rw [takeMarkers]
  cases dropMarker? marker text <;> rfl

theorem eq_append_getD_dropMarker? (marker text : String) :
    text = (if (dropMarker? marker text).isSome then marker else "") ++
      (dropMarker? marker text).getD text := by
  cases hdrop : dropMarker? marker text with
  | none => exact String.empty_append.symm
  | some left => exact dropMarker?_eq_some_iff.1 hdrop

/-- What the rule takes off a text are the markers that it begins with. -/
theorem exists_marked (text : String) : ∃ warn red left, Marked text warn red left ∧
    takeMarkers markerClasses text = (markerGroup warn red, left) := by
  let warn := (dropMarker? "(warn)" text).isSome
  let behind := (dropMarker? "(warn)" text).getD text
  have hwarn : text = (if warn then "(warn)" else "") ++ behind := eq_append_getD_dropMarker? ..
  have hred := eq_append_getD_dropMarker? "(red)" behind
  refine ⟨warn, (dropMarker? "(red)" behind).isSome, (dropMarker? "(red)" behind).getD behind,
    ⟨?_, isSome_dropMarker?_iff, ?_⟩, ?_⟩
  · rw [String.append_assoc, ← hred]
    exact hwarn
  · -- behind the first marker, the text is the second one and what follows
    have hbehind : ∀ rest, text = (if warn then "(warn)" else "") ++ rest ↔ behind = rest :=
      fun rest => ⟨fun h => (String.append_right_inj _).1 (hwarn.symm.trans h), fun h => h ▸ hwarn⟩
    simp only [hbehind, isSome_dropMarker?_iff]
  · rw [markerClasses, takeMarkers_cons, takeMarkers_cons, takeMarkers, List.append_nil]
    rfl

/-- The markers at the beginning of a text, and what is behind them, are determined. -/
theorem Marked.unique {text left left' : String} {warn red warn' red' : Bool}
    (h : Marked text warn red left) (h' : Marked text warn' red' left') :
    warn = warn' ∧ red = red' ∧ left = left' := by
  obtain rfl : warn = warn' := Bool.eq_iff_iff.2 (h.warn_iff.trans h'.warn_iff.symm)
  obtain rfl : red = red' := Bool.eq_iff_iff.2 (h.red_iff.trans h'.red_iff.symm)
  exact ⟨rfl, rfl, (String.append_right_inj _).1 (h.spelled.symm.trans h'.spelled)⟩

theorem Marked.takeMarkers_eq {text left : String} {warn red : Bool}
    (h : Marked text warn red left) :
    takeMarkers markerClasses text = (markerGroup warn red, left) := by
  obtain ⟨warn', red', left', h', htake⟩ := exists_marked text
  obtain ⟨rfl, rfl, rfl⟩ := h.unique h'
  exact htake

/-! ### The outcomes of the rule -/

/-- What the rule of callouts does to an element. -/
inductive Styling (config : Config) : Element → Except MissingLeadText (Edit Element) → Prop where
  /-- An element that is no blockquote, has no property map or holds no paragraph is left. -/
  | passed {e : Element}
      (nocallout : e.tag ≠ "blockquote" ∨ e.properties = none ∨
        ∀ node ∈ e.children, node.hasTag "p" = false) :
      Styling config e (.ok ⟨e, 0, []⟩)
  /-- A strict run stops at a deficient blockquote. -/
  | stopped {e : Element} {i : Nat} (strict : config.strictCallouts = true)
      (deficient : Deficient e i) : Styling config e (.error ⟨i⟩)
  /-- Any other run leaves it and says so. -/
  | skipped {e : Element} {i : Nat} (lenient : config.strictCallouts = false)
      (deficient : Deficient e i) : Styling config e (.ok ⟨e, 0, [.skippedCallout i]⟩)
  /-- In a callout, the first text of the first paragraph loses the markers that it begins with, and
  the class gets a group of classes for them.  Nothing else changes. -/
  | styled {before after ahead behind : List Node} {p q : Properties} {paragraph : Option Properties}
      {lead left class_ : String} {warn red : Bool} {textExtra paragraphExtra extra : Extra}
      (first : ∀ node ∈ before, node.hasTag "p" = false)
      (leading : ∀ node ∈ ahead, node.text? = none)
      (marked : Marked lead warn red left)
      (joined : class_ = String.intercalate " "
        (classText (p.get? "class") ++ config.calloutBaseClass :: markerGroup warn red))
      (classed : p.Sets "class" (.string class_) q) :
      Styling config
        ⟨"blockquote", some p, before ++ .element "p" paragraph
          (ahead ++ .text lead textExtra :: behind) paragraphExtra :: after, extra⟩
        (.ok ⟨⟨"blockquote", some q, before ++ .element "p" paragraph
          (ahead ++ .text left textExtra :: behind) paragraphExtra :: after, extra⟩,
          1, [.styledCallout class_]⟩)

variable {config : Config} {e : Element}

theorem calloutParagraph?_eq_none_iff_passed : calloutParagraph? e = none ↔
    e.tag ≠ "blockquote" ∨ e.properties = none ∨
      ∀ node ∈ e.children, node.hasTag "p" = false := by
  unfold calloutParagraph?
  by_cases hquote : e.tag = "blockquote" ∧ e.properties.isSome
  · rw [if_pos hquote, List.findIdx?_eq_none_iff]
    have hsome : e.properties ≠ none := Option.isSome_iff_ne_none.1 hquote.2
    simp [hquote.1, hsome]
  · rw [if_neg hquote]
    rw [not_and_or, Option.not_isSome_iff_eq_none] at hquote
    exact iff_of_true rfl (hquote.imp_right .inl)

theorem fault?_of_calloutParagraph?_eq_none (h : calloutParagraph? e = none) :
    fault? config e = none := by
  rw [fault?, h]

theorem setLeadText_append {ahead : List Node} (h : ∀ node ∈ ahead, node.text? = none)
    (value lead : String) (extra : Extra) (behind : List Node) :
    setLeadText value (ahead ++ .text lead extra :: behind) =
      ahead ++ .text value extra :: behind := by
  induction ahead with
  | nil => rfl
  | cons node ahead ih =>
    obtain ⟨hnode, hahead⟩ := List.forall_mem_cons.1 h
    rw [List.cons_append, setLeadText_cons hnode, ih hahead]
    rfl

theorem modify_append_cons (f : Node → Node) (before : List Node) (node : Node)
    (after : List Node) :
    (before ++ node :: after).modify before.length f = before ++ f node :: after :=
  List.modifyTailIdx_add _ 0 before (node :: after)

theorem exists_append_of_getElem? {nodes : List Node} {i : Nat} {node : Node}
    (h : nodes[i]? = some node) :
    ∃ before after, nodes = before ++ node :: after ∧ before.length = i := by
  obtain ⟨hlt, rfl⟩ := List.getElem?_eq_some_iff.1 h
  refine ⟨nodes.take i, nodes.drop (i + 1), ?_, List.length_take_of_le hlt.le⟩
  rw [List.getElem_cons_drop, List.take_append_drop]

section Callout

variable {before after ahead behind : List Node} {p : Properties} {paragraph : Option Properties}
  {lead : String} {textExtra paragraphExtra extra : Extra}

theorem isCallout_of_append (first : ∀ node ∈ before, node.hasTag "p" = false)
    (leading : ∀ node ∈ ahead, node.text? = none) :
    IsCallout ⟨"blockquote", some p, before ++ .element "p" paragraph
      (ahead ++ .text lead textExtra :: behind) paragraphExtra :: after, extra⟩
      before.length lead := by
  refine ⟨ahead, textExtra, behind, ⟨rfl, rfl, ⟨paragraph, paragraphExtra, ?_⟩, ?_⟩, leading⟩
  · rw [List.getElem?_append_right le_rfl, Nat.sub_self, List.getElem?_cons_zero]
  · intro j hj node hnode
    rw [List.getElem?_append_left hj] at hnode
    exact first node (List.mem_of_getElem? hnode)

/-- A callout, taken apart at the text that its markers are read from. -/
theorem exists_append_of_isCallout {i : Nat} (h : IsCallout e i lead) :
    ∃ before after ahead behind p paragraph textExtra paragraphExtra,
      e = ⟨"blockquote", some p, before ++ .element "p" paragraph
        (ahead ++ .text lead textExtra :: behind) paragraphExtra :: after, e.extra⟩ ∧
      (∀ node ∈ before, node.hasTag "p" = false) ∧ ∀ node ∈ ahead, node.text? = none := by
  obtain ⟨tag, properties, children, extra⟩ := e
  obtain ⟨ahead, textExtra, behind, ⟨rfl, hproperties, ⟨paragraph, paragraphExtra, hnode⟩, hfirst⟩,
    leading⟩ := h
  obtain ⟨p, rfl⟩ := Option.isSome_iff_exists.1 hproperties
  obtain ⟨before, after, rfl, rfl⟩ := exists_append_of_getElem? hnode
  refine ⟨before, after, ahead, behind, p, paragraph, textExtra, paragraphExtra, rfl,
    fun node hmem => ?_, leading⟩
  obtain ⟨j, hj, rfl⟩ := List.getElem_of_mem hmem
  refine hfirst j hj _ ?_
  rw [List.getElem?_append_left hj, List.getElem?_eq_getElem hj]

end Callout

theorem markCallout_of_calloutLead? {i : Nat} {lead : String}
    (h : calloutLead? e = some (i, lead)) :
    markCallout config e = .ok
      ⟨{ e with
          properties := some (e.propertyMap.insert "class" (.string (calloutClass config e lead)))
          children := e.children.modify i (mapContent (setLeadText (strippedLead lead))) },
        1, [.styledCallout (calloutClass config e lead)]⟩ := by
  have hfault : fault? config e = none := by
    rw [fault?, h, calloutParagraph?_of_calloutLead? h]
  rw [markCallout_eq, hfault, styledCallout, h, calloutParagraph?_of_calloutLead? h]

/-- The rule does what `Styling` says. -/
theorem markCallout_of_styling {outcome : Except MissingLeadText (Edit Element)}
    (h : Styling config e outcome) : markCallout config e = outcome := by
  cases h
  case passed nocallout =>
    have hparagraph := calloutParagraph?_eq_none_iff_passed.2 nocallout
    rw [markCallout_eq, fault?_of_calloutParagraph?_eq_none hparagraph, styledCallout, hparagraph]
    rfl
  case stopped i strict deficient =>
    rw [markCallout_eq, (@fault?_eq_some_iff config strict e ⟨i⟩).2 deficient]
  case skipped i lenient deficient =>
    obtain ⟨hparagraph, hlead⟩ := deficient_iff.1 deficient
    rw [markCallout_eq, fault?_of_lenient lenient, styledCallout, hparagraph, hlead]
  case styled first leading marked joined classed =>
    rw [markCallout_of_calloutLead? (calloutLead?_eq_some_iff.2 (isCallout_of_append first leading)),
      calloutClass, intercalate_classNames, strippedLead, marked.takeMarkers_eq, modify_append_cons,
      mapContent, setLeadText_append leading, Properties.sets_iff.1 classed, joined]
    rfl

theorem exists_styling (config : Config) (e : Element) :
    ∃ outcome, Styling config e outcome := by
  cases hlead : calloutLead? e with
  | some found =>
    obtain ⟨before, after, ahead, behind, p, paragraph, textExtra, paragraphExtra, he, first,
      leading⟩ := exists_append_of_isCallout (calloutLead?_eq_some_iff.1 hlead)
    obtain ⟨warn, red, left, marked, -⟩ := exists_marked found.2
    rw [he]
    exact ⟨_, .styled first leading marked rfl (Properties.sets_iff.2 rfl)⟩
  | none =>
    cases hparagraph : calloutParagraph? e with
    | none => exact ⟨_, .passed (calloutParagraph?_eq_none_iff_passed.1 hparagraph)⟩
    | some i =>
      have hdeficient := deficient_iff.2 ⟨hparagraph, hlead⟩
      cases hstrict : config.strictCallouts with
      | true => exact ⟨_, .stopped hstrict hdeficient⟩
      | false => exact ⟨_, .skipped hstrict hdeficient⟩

/-- **The callout rule, end to end.**  What it does to an element is one of four things, and which
one is said without it: nothing at an element that is no callout, nothing or the end of a strict walk
at a deficient blockquote, and at a callout a change of its first text and of its class.  An error
leaves the element as it is too. -/
theorem markCallout_iff (config : Config) (e : Element) :
    (∀ outcome, markCallout config e = outcome ↔ Styling config e outcome) ∧
    ∀ missing, markCallout config e = .error missing → ∀ progress,
      (rules config).element progress e = ⟨progress, e, some missing⟩ := by
  refine ⟨fun outcome => ⟨?_, markCallout_of_styling⟩, fun missing h progress => ?_⟩
  · rintro rfl
    obtain ⟨outcome, h⟩ := exists_styling config e
    rwa [markCallout_of_styling h]
  · simp only [rules, h]

/-- A callout with a class.  Its text begins with both markers, and the first one comes again. -/
def sampleCallout : Element where
  tag := "blockquote"
  properties := some (.ofList [("class", .string "note  wide"), ("id", .null)])
  children := [.ofText "\n", .element "p" none [.ofText "(warn)(red)(warn) x"] .empty]
  extra := .empty

/-- A deficient blockquote. -/
def sampleDeficient : Element where
  tag := "blockquote"
  properties := some .empty
  children := [.element "p" none [.element "code" none [] .empty] .empty]
  extra := .empty

theorem markCallout_iff_sampleCallout :
    Styling {} sampleCallout (.ok
      { value :=
          { sampleCallout with
            properties := some (.ofList
              [("class", .string "note  wide bg-default bq-warn bq-red"), ("id", .null)])
            children := [.ofText "\n", .element "p" none [.ofText "(warn) x"] .empty] }
        count := 1
        events := [.styledCallout "note  wide bg-default bq-warn bq-red"] }) ∧
    (rules { strictCallouts := true }).element .start sampleDeficient =
      ⟨.start, sampleDeficient, some ⟨0⟩⟩ :=
  ⟨((markCallout_iff {} sampleCallout).1 _).1 rfl,
    (markCallout_iff { strictCallouts := true } sampleDeficient).2 ⟨0⟩ rfl .start⟩

end Docs

end DocTree
