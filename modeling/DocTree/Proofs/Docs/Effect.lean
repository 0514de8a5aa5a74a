import DocTree.Docs.Run

/-!
# What the rules do to an element

The two rules of elements exclude each other, since a blockquote is no heading.  So what they make
of an element is one thing: new properties (`reclass`) and new content (`restyle`), or nothing, or
the end of the walk (`fault?`).

What the rules read of the content of an element is the *face* of every node in it (`Node.face`):
its tag, and the lead text it holds if it is an element.  Two contents with the same faces are the
same to the rules (`calloutLead?_content`, `fault?_content`).
-/

namespace DocTree

namespace Node

/-- The tag of the node, if it is an element. -/
def tag? : Node → Option String
  | element tag .. => some tag
  | _ => none

/-- The lead text that the node holds as an element. -/
def lead? (node : Node) : Option String := node.element?.bind (Docs.leadText? ·.children)

/-- What the rules of an element read of a node in its content. -/
def face (node : Node) : Option String × Option String := (node.tag?, node.lead?)

theorem hasTag_eq (tag : String) (node : Node) : node.hasTag tag = (node.tag? == some tag) := by
  cases node <;> simp [hasTag, tag?]

end Node

theorem Root.toNode_injective {r s : Root} (h : r.toNode = s.toNode) : r = s := by
  obtain ⟨hchildren, hextra⟩ := Node.root.inj h
  rw [Root.mk.injEq]
  exact ⟨hchildren, hextra⟩

namespace Docs

/-! ### The two rules exclude each other -/

/-- The place of a callout's paragraph and its lead text. -/
def calloutLead? (e : Element) : Option (Nat × String) :=
  (calloutParagraph? e).bind fun paragraph =>
    (e.children[paragraph]?.bind Node.lead?).map (paragraph, ·)

theorem tag_of_calloutParagraph? {e : Element} {paragraph : Nat}
    (h : calloutParagraph? e = some paragraph) : e.tag = "blockquote" := by
  unfold calloutParagraph? at h
  split at h
  next hc => exact hc.1
  next => cases h

theorem calloutParagraph?_of_calloutLead? {e : Element} {paragraph : Nat} {text : String}
    (h : calloutLead? e = some (paragraph, text)) : calloutParagraph? e = some paragraph := by
  simp only [calloutLead?, Option.bind_eq_some_iff, Option.map_eq_some_iff, Prod.mk.injEq] at h
  obtain ⟨i, hi, _, _, rfl, _⟩ := h
  exact hi

theorem hasTag_of_calloutLead? {e : Element} {paragraph : Nat} {text : String}
    (h : calloutLead? e = some (paragraph, text)) {node : Node}
    (hn : e.children[paragraph]? = some node) : node.hasTag "p" = true := by
  have hp := calloutParagraph?_of_calloutLead? h
  unfold calloutParagraph? at hp
  split at hp
  next =>
    obtain ⟨hlt, htag, -⟩ := List.findIdx?_eq_some_iff_getElem.1 hp
    obtain rfl : e.children[paragraph] = node := by simpa [hlt] using hn
    exact htag
  next => cases hp

theorem isSome_properties_of_calloutLead? {e : Element} {lead : Nat × String}
    (h : calloutLead? e = some lead) : e.properties.isSome := by
  have hp := calloutParagraph?_of_calloutLead? h
  unfold calloutParagraph? at hp
  split at hp
  next hc => exact hc.2
  next => cases hp

theorem permalinkId?_eq (e : Element) :
    permalinkId? e = if e.tag ∈ permalinkTags then
      (e.property? "id").bind fun id => if id.isPresent = true then some id.text else none
    else none := by
  by_cases ht : e.tag ∈ permalinkTags
  · rw [if_pos ht]
    change Option.bind (if e.tag ∈ permalinkTags then some () else none) _ = _
    rw [if_pos ht]
    change Option.bind (e.property? "id") _ = _
    refine congrArg (Option.bind _) (funext fun id => ?_)
    change Option.bind (if id.isPresent = true then some () else none) _ = _
    by_cases hp : id.isPresent = true
    · rw [if_pos hp, if_pos hp]
      rfl
    · rw [if_neg hp, if_neg hp]
      rfl
  · rw [if_neg ht]
    change Option.bind (if e.tag ∈ permalinkTags then some () else none) _ = _
    rw [if_neg ht]
    rfl

/-- The headings that get a permalink, and its target. -/
theorem permalinkId?_eq_some_iff {e : Element} {id : String} :
    permalinkId? e = some id ↔ e.tag ∈ permalinkTags ∧
      ∃ value, e.property? "id" = some value ∧ value.isPresent = true ∧ value.text = id := by
  simp [permalinkId?_eq, Option.bind_eq_some_iff]

theorem isSome_properties_of_permalinkId? {e : Element} {id : String}
    (h : permalinkId? e = some id) : e.properties.isSome := by
  obtain ⟨-, value, hv, -⟩ := permalinkId?_eq_some_iff.1 h
  cases hp : e.properties with
  | some properties => rfl
  | none => simp [Element.property?, hp] at hv

theorem permalinkId?_of_not_mem {e : Element} (h : e.tag ∉ permalinkTags) :
    permalinkId? e = none :=
  Option.eq_none_iff_forall_ne_some.2 fun _ hid => h (permalinkId?_eq_some_iff.1 hid).1

theorem permalinkId?_of_tag {e : Element} (h : e.tag = "blockquote") : permalinkId? e = none :=
  permalinkId?_of_not_mem (by rw [h]; decide)

theorem linkHeading_of_tag (config : Config) {e : Element} (h : e.tag = "blockquote") :
    linkHeading config e = .unchanged e := by
  simp only [linkHeading, permalinkId?_of_tag h]

/-- A callout is no heading. -/
theorem permalinkId?_of_calloutLead? {e : Element} {lead : Nat × String}
    (h : calloutLead? e = some lead) : permalinkId? e = none :=
  permalinkId?_of_tag (tag_of_calloutParagraph? (calloutParagraph?_of_calloutLead? h))

/-! ### The callout rule by cases -/

/-- The class of a callout with the given lead text. -/
def calloutClass (config : Config) (e : Element) (lead : String) : String :=
  String.intercalate " " <|
    classNames (e.property? "class") ++ config.calloutBaseClass :: (takeMarkers markerClasses lead).1

/-- The lead text that stays when the markers are taken off. -/
def strippedLead (lead : String) : String := (takeMarkers markerClasses lead).2

/-- What stops the walk at an element. -/
def fault? (config : Config) (e : Element) : Option MissingLeadText :=
  match calloutParagraph? e, calloutLead? e with
  | some paragraph, none => if config.strictCallouts then some ⟨paragraph⟩ else none
  | _, _ => none

/-- What the callout rule makes of an element that does not stop the walk. -/
def styledCallout (config : Config) (e : Element) : Edit Element :=
  match calloutParagraph? e, calloutLead? e with
  | none, _ => .unchanged e
  | some paragraph, none => { value := e, count := 0, events := [.skippedCallout paragraph] }
  | some _, some (paragraph, lead) =>
    { value :=
        { e with
          properties := some (e.propertyMap.insert "class" (.string (calloutClass config e lead)))
          children := e.children.modify paragraph (mapContent (setLeadText (strippedLead lead))) }
      count := 1
      events := [.styledCallout (calloutClass config e lead)] }

theorem markCallout_eq (config : Config) (e : Element) :
    markCallout config e = match fault? config e with
      | some missing => .error missing
      | none => .ok (styledCallout config e) := by
  simp only [markCallout, fault?, styledCallout, calloutLead?]
  cases hp : calloutParagraph? e with
  | none => rfl
  | some paragraph =>
    have hl : (e.children[paragraph]?.bind Node.element?).bind (leadText? ·.children) =
        e.children[paragraph]?.bind Node.lead? := Option.bind_assoc ..
    simp only [hl, Option.bind_some]
    cases e.children[paragraph]?.bind Node.lead? with
    | none => cases config.strictCallouts <;> rfl
    | some lead => rfl

/-! ### Both rules as one -/

/-- The properties that the rules give to an element. -/
def reclass (config : Config) (e : Element) : Option Properties :=
  match calloutLead? e, permalinkId? e with
  | some (_, lead), _ =>
    some (e.propertyMap.insert "class" (.string (calloutClass config e lead)))
  | none, some _ => some (e.propertyMap.insert "class" (.string config.headingClass))
  | none, none => e.properties

/-- What the rules of an element make of its content. -/
def restyle (config : Config) (e : Element) (content : List Node) : List Node :=
  match calloutLead? e, permalinkId? e with
  | some (paragraph, lead), _ =>
    content.modify paragraph (mapContent (setLeadText (strippedLead lead)))
  | none, some id => content ++ [permalinkAnchor config id]
  | none, none => content

/-- What the rules make of an element, given the content it has by then. -/
def restyled (config : Config) (e : Element) (content : List Node) : Element :=
  ⟨e.tag, reclass config e, restyle config e content, e.extra⟩

/-- Counts what the rules do at an element. -/
def Progress.addElement (config : Config) (p : Progress) (e : Element) : Progress :=
  (p.addCallouts (styledCallout config e)).addHeadings (linkHeading config e)

theorem linkHeading_styledCallout (config : Config) (e : Element) :
    linkHeading config (styledCallout config e).value =
      { linkHeading config e with value := restyled config e e.children } := by
  unfold styledCallout
  cases hp : calloutParagraph? e with
  | none =>
    have hl : calloutLead? e = none := by simp [calloutLead?, hp]
    unfold linkHeading restyled reclass restyle
    cases hi : permalinkId? e with
    | none => simp [hl, hi, Edit.unchanged]
    | some id => simp [hl, hi, Edit.unchanged, Element.insertProperty, Element.append]
  | some i =>
    have htag := tag_of_calloutParagraph? hp
    rw [linkHeading_of_tag config htag]
    cases hl : calloutLead? e with
    | none =>
      simp only [linkHeading_of_tag config htag, restyled, reclass, restyle,
        permalinkId?_of_tag htag, hl, Edit.unchanged]
    | some lead =>
      simp only [restyled, reclass, restyle, hl]
      exact linkHeading_of_tag config htag

theorem rules_element (config : Config) (p : Progress) (e : Element) :
    (rules config).element p e = match fault? config e with
      | some missing => ⟨p, e, some missing⟩
      | none => .unchanged (p.addElement config e) (restyled config e e.children) := by
  simp only [rules, markCallout_eq]
  cases fault? config e with
  | some missing => rfl
  | none => simp [linkHeading_styledCallout, Progress.addElement, Progress.addHeadings]

/-! ### Contents with the same faces -/

section Faces

variable {config : Config} {e : Element} {content : List Node}

theorem calloutParagraph?_content (h : content.map Node.face = e.children.map Node.face) :
    calloutParagraph? { e with children := content } = calloutParagraph? e := by
  have find : ∀ nodes : List Node, nodes.findIdx? (·.hasTag "p") =
      (nodes.map Node.face).findIdx? fun face => face.1 == some "p" := fun nodes => by
    rw [List.findIdx?_map]
    exact congrArg (nodes.findIdx? ·) (funext (Node.hasTag_eq "p"))
  simp only [calloutParagraph?, find, h]

theorem calloutLead?_content (h : content.map Node.face = e.children.map Node.face) :
    calloutLead? { e with children := content } = calloutLead? e := by
  have lead : ∀ (nodes : List Node) (i : Nat), nodes[i]?.bind Node.lead? =
      (nodes.map Node.face)[i]?.bind (·.2) := fun nodes i => by
    rw [List.getElem?_map]
    cases nodes[i]? <;> rfl
  simp only [calloutLead?, calloutParagraph?_content h, lead, h]

theorem fault?_content (h : content.map Node.face = e.children.map Node.face) :
    fault? config { e with children := content } = fault? config e := by
  simp only [fault?, calloutParagraph?_content h, calloutLead?_content h]

/-- The rules do the same to an element whatever its content is behind the faces. -/
theorem restyled_content (h : content.map Node.face = e.children.map Node.face) :
    restyled config { e with children := content } content = restyled config e content := by
  have hid : permalinkId? { e with children := content } = permalinkId? e := rfl
  simp only [restyled, reclass, restyle, calloutLead?_content h, hid]
  rfl

end Faces

end Docs

end DocTree
