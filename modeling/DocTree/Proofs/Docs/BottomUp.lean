import DocTree.Proofs.Docs.Rewritten

/-!
# Rewriting from the bottom up

`bottomUp` rewrites the content of a node first, and then the node: a root by putting its tables into
containers, an element by its rules, in the order it is given.  It changes no list that it is going
through, and never comes back to a node that a rule has added.

A run of the rules is just that: it comes to the end of a tree if and only if rewriting from the
bottom up meets no error, and then the tree and the counts are the same.  So it makes no difference
that a run changes a node before its content and walks again through what it added, nor which of the
two rules of elements comes first.
-/

namespace DocTree.Docs

instance : Add Tally :=
  ⟨fun a b => ⟨a.headings + b.headings, a.callouts + b.callouts, a.tables + b.tables⟩⟩

/-- The rules of an element that change it, with the counts of what they did. -/
abbrev ElementRules := Element → Except MissingLeadText (Element × Tally)

/-- The rules of an element, the callout first. -/
def calloutFirst (config : Config) : ElementRules := fun e => do
  let styled ← markCallout config e
  let linked := linkHeading config styled.value
  return (linked.value, ⟨linked.count, styled.count, 0⟩)

/-- The rules of an element, the permalink first. -/
def permalinkFirst (config : Config) : ElementRules := fun e => do
  let linked := linkHeading config e
  let styled ← markCallout config linked.value
  return (styled.value, ⟨linked.count, styled.count, 0⟩)

mutual

/-- Rewrites a node, after its content. -/
def bottomUp (config : Config) (elementRules : ElementRules) :
    Node → Except MissingLeadText (Node × Tally)
  | .root children extra => do
    let (content, tally) ← bottomUpAll config elementRules children
    let wrapped := containTables config ⟨content, extra⟩
    return (wrapped.value.toNode, tally + ⟨0, 0, wrapped.count⟩)
  | .element tag properties children extra => do
    let (content, tally) ← bottomUpAll config elementRules children
    let (e, own) ← elementRules ⟨tag, properties, content, extra⟩
    return (e.toNode, tally + own)
  | .text value extra => return (.text value extra, ⟨0, 0, 0⟩)
  | .other kind value children extra => return (.other kind value children extra, ⟨0, 0, 0⟩)

/-- Rewrites every node of a list. -/
def bottomUpAll (config : Config) (elementRules : ElementRules) :
    List Node → Except MissingLeadText (List Node × Tally)
  | [] => return ([], ⟨0, 0, 0⟩)
  | node :: rest => do
    let (node, own) ← bottomUp config elementRules node
    let (rest, tally) ← bottomUpAll config elementRules rest
    return (node :: rest, own + tally)

end

/-- Rewrites a tree from the bottom up. -/
def bottomUpTree (config : Config) (elementRules : ElementRules) (r : Root) :
    Except MissingLeadText (Root × Tally) := do
  let (content, tally) ← bottomUpAll config elementRules r.children
  let wrapped := containTables config ⟨content, r.extra⟩
  return (wrapped.value, tally + ⟨0, 0, wrapped.count⟩)

/-- The rules as the hooks of a walk, the permalink first. -/
def permalinkFirstRules (config : Config) : Editor Progress MissingLeadText where
  root := (rules config).root
  element progress e :=
    let linked := linkHeading config e
    match markCallout config linked.value with
    | .error missing => ⟨progress.addHeadings linked, linked.value, some missing⟩
    | .ok styled => .unchanged ((progress.addHeadings linked).addCallouts styled) styled.value

/-- The tree and the counts of a run that came to the end of the tree. -/
def Run.result? (finished : Run) : Option (Root × Tally) :=
  match finished.failure with
  | none => some (finished.root, finished.tally)
  | some _ => none

/-! ### The order of the rules -/

variable {config : Config}

theorem markCallout_of_permalinkId? {e : Element} {id : String} (h : permalinkId? e = some id)
    (properties : Option Properties) (content : List Node) :
    markCallout config ⟨e.tag, properties, content, e.extra⟩ =
      .ok (.unchanged ⟨e.tag, properties, content, e.extra⟩) := by
  have htag : e.tag ≠ "blockquote" := fun htag => by simp [permalinkId?_of_tag htag] at h
  simp [markCallout, calloutParagraph?, htag]

/-- Of the two rules at most one applies to an element, also once the other one was tried. -/
theorem rules_exclusive (config : Config) (e : Element) :
    (linkHeading config e = .unchanged e ∧ ∀ styled, markCallout config e = .ok styled →
      linkHeading config styled.value = .unchanged styled.value) ∨
    (markCallout config e = .ok (.unchanged e) ∧
      markCallout config (linkHeading config e).value =
        .ok (.unchanged (linkHeading config e).value)) := by
  -- a callout is no heading, and stays none when it gets its classes
  cases hid : permalinkId? e with
  | none =>
    have hl : linkHeading config e = .unchanged e := by simp only [linkHeading, hid]
    refine .inl ⟨hl, fun styled hs => ?_⟩
    rw [markCallout_eq] at hs
    cases hf : fault? config e with
    | some missing => simp [hf] at hs
    | none =>
      obtain rfl : styledCallout config e = styled := by simpa [hf] using hs
      cases hp : calloutParagraph? e with
      | some paragraph => exact linkHeading_of_tag config (by
          unfold styledCallout
          cases calloutLead? e <;> simp only [hp] <;> exact tag_of_calloutParagraph? hp)
      | none =>
        have hu : styledCallout config e = .unchanged e := by simp only [styledCallout, hp]
        rw [hu]
        exact hl
  | some id =>
    have hm := @markCallout_of_permalinkId? config e id hid
    refine .inr ⟨hm e.properties e.children, ?_⟩
    simp only [linkHeading, hid]
    exact hm _ _

/-- The order of the two rules makes no difference to an element. -/
theorem permalinkFirst_eq_calloutFirst (config : Config) :
    permalinkFirst config = calloutFirst config := by
  funext e
  rcases rules_exclusive config e with ⟨hl, hs⟩ | ⟨hm, hl⟩
  · cases hm : markCallout config e with
    | error missing => simp only [permalinkFirst, calloutFirst, hl, Edit.unchanged, hm]; rfl
    | ok styled =>
      have := hs styled hm
      simp only [permalinkFirst, calloutFirst, hl, Edit.unchanged, hm]
      change Except.ok _ = Except.ok _
      rw [this]
      rfl
  · simp only [permalinkFirst, calloutFirst, hm, hl]
    rfl

theorem addCallouts_unchanged (p : Progress) (e : Element) : p.addCallouts (.unchanged e) = p := by
  simp [Progress.addCallouts, Edit.unchanged]

theorem addHeadings_unchanged (p : Progress) (e : Element) : p.addHeadings (.unchanged e) = p := by
  simp [Progress.addHeadings, Edit.unchanged]

/-- The order of the two rules makes no difference to a walk, in what it reports neither. -/
theorem permalinkFirstRules_eq_rules (config : Config) :
    permalinkFirstRules config = rules config := by
  refine congrArg (Editor.mk (rules config).root) (funext fun p => funext fun e => ?_)
  rcases rules_exclusive config e with ⟨hl, hs⟩ | ⟨hm, hl⟩
  · simp only [hl, addHeadings_unchanged]
    simp only [Edit.unchanged]
    cases hm : markCallout config e with
    | error missing => rfl
    | ok styled => simp only [hs styled hm, addHeadings_unchanged]; rfl
  · simp only [hl, hm, addCallouts_unchanged]
    rfl

/-! ### What the rules count -/

/-- The counts of what the rules do at an element. -/
def elementTally (config : Config) (e : Element) : Tally :=
  ⟨(linkHeading config e).count, (styledCallout config e).count, 0⟩

theorem calloutFirst_eq (e : Element) :
    calloutFirst config e = match fault? config e with
      | some missing => .error missing
      | none => .ok (restyled config e e.children, elementTally config e) := by
  simp only [calloutFirst, markCallout_eq]
  cases fault? config e with
  | some missing => rfl
  | none =>
    change Except.ok _ = _
    rw [linkHeading_styledCallout]
    rfl

theorem elementTally_content {e : Element} {content : List Node}
    (h : content.map Node.face = e.children.map Node.face) :
    elementTally config { e with children := content } = elementTally config e := by
  have hid : permalinkId? { e with children := content } = permalinkId? e := rfl
  simp only [elementTally, linkHeading, styledCallout, hid, calloutParagraph?_content h,
    calloutLead?_content h]
  cases permalinkId? e <;> cases calloutParagraph? e <;> cases calloutLead? e <;> rfl

theorem tally_addElement (p : Progress) (e : Element) :
    (p.addElement config e).tally = p.tally + elementTally config e := rfl

theorem tablePositions_eq_of_faces {content children : List Node}
    (h : content.map Node.face = children.map Node.face) :
    tablePositions content = tablePositions children := by
  have hp : ∀ nodes : List Node, tablePositions nodes =
      (((nodes.map Node.face).zipIdx.filter fun x => x.1.1 == some "table").map (·.2)) := by
    intro nodes
    rw [List.zipIdx_map, List.filter_map, List.map_map]
    simp only [tablePositions, isTable, Node.hasTag_eq]
    rfl
  rw [hp, hp, h]

theorem Tally.add_assoc (a b c : Tally) : a + b + c = a + (b + c) :=
  Tally.mk.injEq .. ▸ ⟨Nat.add_assoc .., Nat.add_assoc .., Nat.add_assoc ..⟩

theorem Tally.add_comm (a b : Tally) : a + b = b + a :=
  Tally.mk.injEq .. ▸ ⟨Nat.add_comm .., Nat.add_comm .., Nat.add_comm ..⟩

@[simp] theorem Tally.zero_add (a : Tally) : ⟨0, 0, 0⟩ + a = a :=
  Tally.mk.injEq .. ▸ ⟨Nat.zero_add _, Nat.zero_add _, Nat.zero_add _⟩

/-! ### From the walk to the bottom-up rewriting -/

/-- A walk that began with `p` did what a rewriting did: it came to the end if that met no error, and
then made the same and counted the same. -/
def Agrees {α : Type} (p : Progress) (walked : Outcome Progress MissingLeadText α) :
    Except MissingLeadText (α × Tally) → Prop
  | .ok (value, tally) =>
    walked.stop = none ∧ walked.value = value ∧ walked.state.tally = p.tally + tally
  | .error _ => walked.stop ≠ none

theorem agrees_root {children : List Node} (extra : Extra) {p : Progress}
    (hc : Agrees (p.addTables (containTables config ⟨children, extra⟩))
      (sweepAll config (p.addTables (containTables config ⟨children, extra⟩)) children)
      (bottomUpAll config (calloutFirst config) children)) :
    Agrees p (sweep config p (.root children extra))
      (bottomUp config (calloutFirst config) (.root children extra)) := by
  have hf := @map_face_sweepAll config
    (p.addTables (containTables config ⟨children, extra⟩)) children
  rw [sweep, bottomUp]
  cases hb : bottomUpAll config (calloutFirst config) children with
  | error missing =>
    rw [hb] at hc
    exact hc
  | ok result =>
    obtain ⟨content, tally⟩ := result
    rw [hb] at hc
    obtain ⟨hstop, hvalue, htally⟩ := hc
    rw [hvalue] at hf
    -- the tables are counted before their content is rewritten in one, and after it in the other
    have hcount : (containTables config ⟨content, extra⟩).count =
        (containTables config ⟨children, extra⟩).count :=
      congrArg List.length (tablePositions_eq_of_faces hf)
    refine ⟨hstop, by simp only [Outcome.map, hvalue]; rfl, ?_⟩
    simp only [Outcome.map, htally, hcount]
    rw [Tally.add_comm tally, ← Tally.add_assoc]
    rfl

theorem agrees_element {e : Element} {p : Progress}
    (hc : Agrees (p.addElement config e) (sweepAll config (p.addElement config e) e.children)
      (bottomUpAll config (calloutFirst config) e.children)) :
    Agrees p (sweep config p e.toNode) (bottomUp config (calloutFirst config) e.toNode) := by
  have hf := @map_face_sweepAll config (p.addElement config e) e.children
  rw [Element.toNode, sweep, bottomUp]
  cases hb : bottomUpAll config (calloutFirst config) e.children with
  | error missing =>
    rw [hb] at hc
    cases hfault : fault? config e with
    | some missing => exact Option.some_ne_none _
    | none => exact hc
  | ok result =>
    obtain ⟨content, tally⟩ := result
    rw [hb] at hc
    obtain ⟨hstop, hvalue, htally⟩ := hc
    rw [hvalue] at hf
    -- the rules see the rewritten content, but only its faces
    have hrule : calloutFirst config { e with children := content } = _ := calloutFirst_eq _
    rw [fault?_content hf, restyled_content hf, elementTally_content hf] at hrule
    change Agrees p _ (calloutFirst config { e with children := content } >>= _)
    rw [hrule]
    cases hfault : fault? config e with
    | some missing => exact Option.some_ne_none _
    | none =>
      refine ⟨hstop, by simp only [Outcome.map, hvalue], ?_⟩
      simp only [Outcome.map, htally, tally_addElement]
      rw [Tally.add_comm tally, ← Tally.add_assoc]

mutual

theorem agrees_bottomUp : ∀ (node : Node) (p : Progress),
    Agrees p (sweep config p node) (bottomUp config (calloutFirst config) node)
  | .root children extra, p => agrees_root extra (agrees_bottomUpAll children _)
  | .element tag properties children extra, p =>
    @agrees_element config ⟨tag, properties, children, extra⟩ p (agrees_bottomUpAll children _)
  | .text value extra, p => by
    rw [sweep, bottomUp]
    exact ⟨rfl, rfl, rfl⟩
  | .other kind value children extra, p => by
    rw [sweep, bottomUp]
    exact ⟨rfl, rfl, rfl⟩

theorem agrees_bottomUpAll : ∀ (nodes : List Node) (p : Progress),
    Agrees p (sweepAll config p nodes) (bottomUpAll config (calloutFirst config) nodes)
  | [], p => by
    rw [sweepAll, bottomUpAll]
    exact ⟨rfl, rfl, rfl⟩
  | node :: rest, p => by
    have hn := agrees_bottomUp node p
    have hr := agrees_bottomUpAll rest (sweep config p node).state
    rw [sweepAll, bottomUpAll]
    -- the first fault stops both; else the tallies of the first node and of the others are added
    cases hb : bottomUp config (calloutFirst config) node with
    | error missing =>
      rw [hb] at hn
      cases hs : (sweep config p node).stop with
      | none => exact absurd hs hn
      | some reason => exact Option.some_ne_none _
    | ok first =>
      obtain ⟨first, own⟩ := first
      rw [hb] at hn
      obtain ⟨hstop, hvalue, htally⟩ := hn
      simp only [hstop]
      cases hb' : bottomUpAll config (calloutFirst config) rest with
      | error missing => rw [hb'] at hr; exact hr
      | ok others =>
        obtain ⟨others, tally⟩ := others
        rw [hb'] at hr
        obtain ⟨hstop', hvalue', htally'⟩ := hr
        refine ⟨hstop', by simp only [Outcome.map, hvalue, hvalue'], ?_⟩
        simp only [Outcome.map, htally', htally]
        exact Tally.add_assoc ..

end

theorem agrees_bottomUpTree (r : Root) (p : Progress) :
    Agrees p (sweepTree config p r) (bottomUpTree config (calloutFirst config) r) := by
  have h := @agrees_bottomUp config r.toNode p
  rw [Root.toNode, sweep, bottomUp] at h
  unfold sweepTree bottomUpTree
  cases hb : bottomUpAll config (calloutFirst config) r.children with
  | error missing => rw [hb] at h; exact h
  | ok result =>
    rw [hb] at h
    obtain ⟨hstop, hvalue, htally⟩ := h
    exact ⟨hstop, Root.toNode_injective hvalue, htally⟩

/-- **A run of the rules is rewriting from the bottom up**: it comes to the end of the tree if and
only if that meets no error, and then leaves the same tree and the same counts.  The order of the
rules of elements does not matter, neither from the bottom up nor in the walk. -/
theorem run_result?_eq_bottomUpTree (config : Config) (r : Root) :
    (run config r).result? = (bottomUpTree config (calloutFirst config) r).toOption ∧
      bottomUpTree config (permalinkFirst config) r = bottomUpTree config (calloutFirst config) r ∧
      (permalinkFirstRules config).walkTree (walkLimit r) .start r =
        (rules config).walkTree (walkLimit r) .start r := by
  refine ⟨?_, by rw [permalinkFirst_eq_calloutFirst], by rw [permalinkFirstRules_eq_rules]⟩
  have h := @agrees_bottomUpTree config r .start
  rw [Run.result?, run_failure, run_root, run_tally]
  cases hb : bottomUpTree config (calloutFirst config) r with
  | error missing =>
    rw [hb] at h
    cases hs : (sweepTree config .start r).stop with
    | none => exact absurd hs h
    | some reason => rfl
  | ok result =>
    rw [hb] at h
    obtain ⟨hstop, hvalue, htally⟩ := h
    simp only [hstop, hvalue, htally]
    exact congrArg (fun tally => some (result.1, tally)) (Tally.zero_add result.2)

end DocTree.Docs
