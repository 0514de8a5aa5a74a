import DocTree.Proofs.Docs.BottomUp
import DocTree.Proofs.Json.Embedded
import DocTree.Proofs.Property.Equality

/-!
# Runs on equal trees

Equal trees may differ in the order of properties and in the signs of zeros.  No rule can tell them
apart: a rule reads a property under its name, asks whether it is present and for its text, and
writes strings only.  So the rules apply to the same nodes of both trees with the same texts
(`calloutLead?_of_same`, `permalinkId?_of_same`, `calloutClass_of_same`), and what they make of equal
elements is equal again (`sameProperties_reclass`, `sameAll_restyle`).  The induction follows both
trees at the same time (`sweep_alike`).
-/

namespace DocTree

/-! ### Equal nodes -/

@[simp] theorem Extra.same_refl (x : Extra) : x.same x = true := Json.sameMembers_refl x.members

namespace Node

theorem same_root_iff {cs : List Node} {x : Extra} {n : Node} :
    (root cs x).same n = true ↔
      ∃ ds y, n = root ds y ∧ sameAll cs ds = true ∧ x.same y = true := by
  cases n <;> simp [same]

theorem same_element_iff {t : String} {p : Option Properties} {cs : List Node} {x : Extra}
    {n : Node} : (element t p cs x).same n = true ↔
      ∃ q ds y, n = element t q ds y ∧ sameProperties p q = true ∧ sameAll cs ds = true ∧
        x.same y = true := by
  cases n with
  | element u q ds y =>
    simp only [same, Bool.and_eq_true, beq_iff_eq, element.injEq]
    constructor
    · rintro ⟨⟨⟨rfl, hp⟩, hc⟩, hx⟩
      exact ⟨q, ds, y, ⟨rfl, rfl, rfl, rfl⟩, hp, hc, hx⟩
    · rintro ⟨_, _, _, ⟨rfl, rfl, rfl, rfl⟩, hp, hc, hx⟩
      exact ⟨⟨⟨rfl, hp⟩, hc⟩, hx⟩
  | _ => simp [same]

theorem same_text_iff {v : String} {x : Extra} {n : Node} :
    (text v x).same n = true ↔ ∃ y, n = text v y ∧ x.same y = true := by
  cases n with
  | text w y =>
    simp only [same, Bool.and_eq_true, beq_iff_eq, text.injEq]
    constructor
    · rintro ⟨rfl, hx⟩
      exact ⟨y, ⟨rfl, rfl⟩, hx⟩
    · rintro ⟨_, ⟨rfl, rfl⟩, hx⟩
      exact ⟨rfl, hx⟩
  | _ => simp [same]

theorem sameAll_nil_iff {nodes : List Node} : sameAll [] nodes = true ↔ nodes = [] := by
  cases nodes <;> simp [sameAll]

theorem sameAll_cons_iff {node : Node} {rest nodes : List Node} :
    sameAll (node :: rest) nodes = true ↔
      ∃ other others, nodes = other :: others ∧ node.same other = true ∧
        sameAll rest others = true := by
  cases nodes with
  | nil => simp [sameAll]
  | cons other others => simp [sameAll]

/-- Nodes of another kind are equal to such nodes alone. -/
theorem exists_of_same_other {kind : String} {value : Option String}
    {children : Option (List Node)} {x : Extra} {n : Node}
    (h : (other kind value children x).same n = true) :
    ∃ kind value children y, n = other kind value children y := by
  cases n with
  | other kind value children y => exact ⟨kind, value, children, y, rfl⟩
  | _ => cases children <;> simp [same] at h

theorem sameAll_append {as bs cs ds : List Node} (h : sameAll as bs = true)
    (hlater : sameAll cs ds = true) : sameAll (as ++ cs) (bs ++ ds) = true := by
  induction as generalizing bs with
  | nil =>
    obtain rfl := sameAll_nil_iff.1 h
    exact hlater
  | cons node rest ih =>
    obtain ⟨other, others, rfl, hnode, hrest⟩ := sameAll_cons_iff.1 h
    exact sameAll_cons_iff.2 ⟨other, others ++ ds, rfl, hnode, ih hrest⟩

theorem sameAll_modify {f : Node → Node}
    (hf : ∀ m n : Node, m.same n = true → (f m).same (f n) = true) {as bs : List Node}
    (h : sameAll as bs = true) (i : Nat) : sameAll (as.modify i f) (bs.modify i f) = true := by
  induction as generalizing bs i with
  | nil =>
    obtain rfl := sameAll_nil_iff.1 h
    cases i <;> rfl
  | cons node rest ih =>
    obtain ⟨other, others, rfl, hnode, hrest⟩ := sameAll_cons_iff.1 h
    cases i with
    | zero => exact sameAll_cons_iff.2 ⟨_, _, rfl, hf _ _ hnode, hrest⟩
    | succ i => exact sameAll_cons_iff.2 ⟨_, _, rfl, hnode, ih hrest i⟩

theorem sameAll_map {f : Node → Node}
    (hf : ∀ m n : Node, m.same n = true → (f m).same (f n) = true) {as bs : List Node}
    (h : sameAll as bs = true) : sameAll (as.map f) (bs.map f) = true := by
  induction as generalizing bs with
  | nil =>
    obtain rfl := sameAll_nil_iff.1 h
    rfl
  | cons node rest ih =>
    obtain ⟨other, others, rfl, hnode, hrest⟩ := sameAll_cons_iff.1 h
    exact sameAll_cons_iff.2 ⟨_, _, rfl, hf _ _ hnode, ih hrest⟩

theorem text?_of_same {m n : Node} (h : m.same n = true) : m.text? = n.text? := by
  cases m with
  | root => obtain ⟨_, _, rfl, -⟩ := same_root_iff.1 h; rfl
  | element => obtain ⟨_, _, _, rfl, -⟩ := same_element_iff.1 h; rfl
  | text => obtain ⟨_, rfl, -⟩ := same_text_iff.1 h; rfl
  | other => obtain ⟨_, _, _, _, rfl⟩ := exists_of_same_other h; rfl

theorem map_text?_of_same {as bs : List Node} (h : sameAll as bs = true) :
    as.map text? = bs.map text? := by
  induction as generalizing bs with
  | nil => rw [sameAll_nil_iff.1 h]
  | cons node rest ih =>
    obtain ⟨other, others, rfl, hnode, hrest⟩ := sameAll_cons_iff.1 h
    rw [List.map_cons, List.map_cons, text?_of_same hnode, ih hrest]

/-- Equal nodes show the rules the same face. -/
theorem face_of_same {m n : Node} (h : m.same n = true) : m.face = n.face := by
  cases m with
  | root => obtain ⟨_, _, rfl, -⟩ := same_root_iff.1 h; rfl
  | element t p cs x =>
    obtain ⟨q, ds, y, rfl, -, hcontent, -⟩ := same_element_iff.1 h
    have hlead : Docs.leadText? cs = Docs.leadText? ds := by
      rw [Docs.leadText?_eq, Docs.leadText?_eq, map_text?_of_same hcontent]
    exact congrArg (Prod.mk (some t)) hlead
  | text => obtain ⟨_, rfl, -⟩ := same_text_iff.1 h; rfl
  | other => obtain ⟨_, _, _, _, rfl⟩ := exists_of_same_other h; rfl

theorem map_face_of_same {as bs : List Node} (h : sameAll as bs = true) :
    as.map face = bs.map face := by
  induction as generalizing bs with
  | nil => rw [sameAll_nil_iff.1 h]
  | cons node rest ih =>
    obtain ⟨other, others, rfl, hnode, hrest⟩ := sameAll_cons_iff.1 h
    rw [List.map_cons, List.map_cons, face_of_same hnode, ih hrest]

end Node

namespace Docs

open Node PropertyValue

/-! ### What the rules read of equal elements -/

/-- Equality of elements. -/
structure SameElement (e f : Element) : Prop where
  tag : e.tag = f.tag
  properties : sameProperties e.properties f.properties = true
  children : sameAll e.children f.children = true
  extra : e.extra.same f.extra = true

variable {config : Config} {e f : Element}

theorem SameElement.toNode (h : SameElement e f) : e.toNode.same f.toNode = true := by
  obtain ⟨t, q, ds, y⟩ := f
  obtain rfl : e.tag = t := h.tag
  exact same_element_iff.2 ⟨q, ds, y, rfl, h.properties, h.children, h.extra⟩

theorem sameProperties_some {p : Option Properties} {q : Properties}
    (h : sameProperties (some q) p = true) : ∃ r, p = some r ∧ q.same r = true := by
  cases p with
  | none => cases h
  | some r => exact ⟨r, rfl, h⟩

theorem sameProperties_none {p : Option Properties} (h : sameProperties none p = true) :
    p = none := by
  cases p with
  | none => rfl
  | some r => cases h

theorem isSome_of_sameProperties {p q : Option Properties} (h : sameProperties p q = true) :
    p.isSome = q.isSome := by
  cases p with
  | none => rw [sameProperties_none h]
  | some p =>
    obtain ⟨q, rfl, -⟩ := sameProperties_some h
    rfl

theorem SameElement.property? (h : SameElement e f) (name : String) :
    SameIfAny (e.property? name) (f.property? name) := by
  have hp := h.properties
  unfold Element.property?
  cases he : e.properties with
  | none =>
    rw [he] at hp
    rw [sameProperties_none hp]
    exact .none
  | some p =>
    rw [he] at hp
    obtain ⟨q, hf, hpq⟩ := sameProperties_some hp
    rw [hf]
    exact Properties.same_iff.1 hpq name

theorem calloutParagraph?_of_same (h : SameElement e f) :
    calloutParagraph? e = calloutParagraph? f := by
  rw [← @calloutParagraph?_content e f.children (map_face_of_same h.children).symm]
  simp only [calloutParagraph?, h.tag, isSome_of_sameProperties h.properties]

theorem calloutLead?_of_same (h : SameElement e f) : calloutLead? e = calloutLead? f := by
  rw [← @calloutLead?_content e f.children (map_face_of_same h.children).symm]
  simp only [calloutLead?, calloutParagraph?, h.tag, isSome_of_sameProperties h.properties]

theorem fault?_of_same (h : SameElement e f) : fault? config e = fault? config f := by
  simp only [fault?, calloutParagraph?_of_same h, calloutLead?_of_same h]

theorem permalinkId?_of_same (h : SameElement e f) : permalinkId? e = permalinkId? f := by
  have hid := h.property? "id"
  rw [permalinkId?_eq, permalinkId?_eq, h.tag]
  generalize e.property? "id" = id at hid
  generalize f.property? "id" = id' at hid
  cases hid with
  | none => rfl
  | some hsame => simp only [Option.bind_some, isPresent_of_same hsame, text_of_same hsame]

theorem classNames_of_same {v w : Option PropertyValue} (h : SameIfAny v w) :
    classNames v = classNames w := by
  cases h with
  | none => rfl
  | @some v w hsame =>
    refine cases_of_same (P := fun v w => classNames (some v) = classNames (some w)) hsame
      (fun _ => rfl) (fun x y hxy => ?_) (fun _ => rfl) (fun as bs hitems => ?_) rfl
    · simp only [classNames, @text_of_same (.number x) (.number y) hxy]
    · simp only [classNames, @text_of_same (.list as) (.list bs) hitems]

theorem calloutClass_of_same (h : SameElement e f) (lead : String) :
    calloutClass config e lead = calloutClass config f lead := by
  rw [calloutClass, calloutClass, classNames_of_same (h.property? "class")]

/-- At equal elements the rules count and report the same. -/
theorem addElement_of_same (h : SameElement e f) (p : Progress) :
    p.addElement config e = p.addElement config f := by
  have hlead := calloutLead?_of_same h
  simp only [Progress.addElement, Progress.addCallouts, Progress.addHeadings, styledCallout,
    linkHeading, calloutParagraph?_of_same h, hlead, permalinkId?_of_same h, h.tag]
  cases calloutParagraph? f with
  | none => cases permalinkId? f <;> rfl
  | some i =>
    cases hf : calloutLead? f with
    | none => cases permalinkId? f <;> rfl
    | some lead =>
      simp only [calloutClass_of_same h]
      cases permalinkId? f <;> rfl

/-! ### What the rules make of equal elements -/

theorem sameProperties_insert (h : SameElement e f) (name s : String) :
    sameProperties (some (e.propertyMap.insert name (.string s)))
      (some (f.propertyMap.insert name (.string s))) = true := by
  refine Properties.same_insert ?_ name (same_string s)
  have hp := h.properties
  unfold Element.propertyMap
  cases he : e.properties with
  | none =>
    rw [he] at hp
    rw [sameProperties_none hp]
    rfl
  | some p =>
    rw [he] at hp
    obtain ⟨q, hf, hpq⟩ := sameProperties_some hp
    rw [hf]
    exact hpq

theorem sameProperties_reclass (h : SameElement e f) :
    sameProperties (reclass config e) (reclass config f) = true := by
  unfold reclass
  rw [calloutLead?_of_same h, permalinkId?_of_same h]
  cases calloutLead? f with
  | some lead =>
    simp only [calloutClass_of_same h]
    exact sameProperties_insert h _ _
  | none =>
    cases permalinkId? f with
    | some id => exact sameProperties_insert h _ _
    | none => exact h.properties

theorem sameAll_setLeadText (lead : String) {as bs : List Node} (h : sameAll as bs = true) :
    sameAll (setLeadText lead as) (setLeadText lead bs) = true := by
  induction as generalizing bs with
  | nil =>
    obtain rfl := sameAll_nil_iff.1 h
    rfl
  | cons node rest ih =>
    obtain ⟨other, others, rfl, hnode, hrest⟩ := sameAll_cons_iff.1 h
    cases hn : node.text? with
    | none =>
      have ho : other.text? = none := (text?_of_same hnode).symm.trans hn
      rw [setLeadText_cons hn, setLeadText_cons ho]
      exact sameAll_cons_iff.2 ⟨_, _, rfl, hnode, ih hrest⟩
    | some value =>
      cases node with
      | text v x =>
        obtain ⟨y, rfl, hx⟩ := same_text_iff.1 hnode
        exact sameAll_cons_iff.2 ⟨_, _, rfl, same_text_iff.2 ⟨y, rfl, hx⟩, hrest⟩
      | _ => cases hn

theorem same_mapContent (lead : String) (m n : Node) (h : m.same n = true) :
    (mapContent (setLeadText lead) m).same (mapContent (setLeadText lead) n) = true := by
  cases m with
  | root => obtain ⟨_, _, rfl, -⟩ := same_root_iff.1 h; exact h
  | element =>
    obtain ⟨q, ds, y, rfl, hp, hcontent, hx⟩ := same_element_iff.1 h
    exact same_element_iff.2 ⟨q, _, y, rfl, hp, sameAll_setLeadText lead hcontent, hx⟩
  | text => obtain ⟨_, rfl, -⟩ := same_text_iff.1 h; exact h
  | other => obtain ⟨_, _, _, _, rfl⟩ := exists_of_same_other h; exact h

theorem same_permalinkAnchor (config : Config) (id : String) :
    (permalinkAnchor config id).same (permalinkAnchor config id) = true := by
  have hempty : Properties.empty.same .empty = true := rfl
  refine same_element_iff.2 ⟨_, _, _, rfl, ?_, ?_, Extra.same_refl _⟩
  · exact Properties.same_insert (Properties.same_insert (Properties.same_insert hempty _
      (same_string _)) _ (same_string _)) _ (same_string _)
  · exact sameAll_cons_iff.2 ⟨_, _, rfl, same_text_iff.2 ⟨_, rfl, Extra.same_refl _⟩, rfl⟩

theorem sameAll_restyle (h : SameElement e f) {as bs : List Node} (hcontent : sameAll as bs = true) :
    sameAll (restyle config e as) (restyle config f bs) = true := by
  unfold restyle
  rw [calloutLead?_of_same h, permalinkId?_of_same h]
  cases calloutLead? f with
  | some lead => exact sameAll_modify (same_mapContent _) hcontent lead.1
  | none =>
    cases permalinkId? f with
    | some id =>
      refine sameAll_append hcontent ?_
      exact sameAll_cons_iff.2 ⟨_, _, rfl, same_permalinkAnchor config id, rfl⟩
    | none => exact hcontent

theorem same_restyled (h : SameElement e f) {as bs : List Node} (hcontent : sameAll as bs = true) :
    (restyled config e as).toNode.same (restyled config f bs).toNode = true :=
  SameElement.toNode
    { tag := h.tag
      properties := sameProperties_reclass h
      children := sameAll_restyle h hcontent
      extra := h.extra }

theorem same_contain (m n : Node) (h : m.same n = true) :
    (contain config m).same (contain config n) = true := by
  unfold contain
  rw [isTable_eq_of_face (face_of_same h)]
  split
  · have hempty : Properties.empty.same .empty = true := rfl
    refine same_element_iff.2 ⟨_, _, _, rfl, ?_, ?_, Extra.same_refl _⟩
    · exact Properties.same_insert hempty _ (same_string _)
    · exact sameAll_cons_iff.2 ⟨_, _, rfl, h, rfl⟩
  · exact h

/-! ### The walk on equal trees -/

/-- Two walks left the same state, stopped for the same reason or not at all, and left equal
values. -/
structure Alike {α : Type} (same : α → α → Bool) (o o' : Outcome Progress MissingLeadText α) :
    Prop where
  state : o.state = o'.state
  stop : o.stop = o'.stop
  value : same o.value o'.value = true

theorem addTables_of_same {cs ds : List Node} (x y : Extra) (h : sameAll cs ds = true)
    (p : Progress) :
    p.addTables (containTables config ⟨cs, x⟩) = p.addTables (containTables config ⟨ds, y⟩) := by
  simp only [Progress.addTables, containTables, tablePositions_eq_of_faces (map_face_of_same h)]

mutual

theorem sweep_alike : ∀ (m n : Node) (p : Progress), m.same n = true →
    Alike Node.same (sweep config p m) (sweep config p n)
  | .root cs x, n, p, h => by
    obtain ⟨ds, y, rfl, hcontent, hx⟩ := same_root_iff.1 h
    have hbelow := sweepAll_alike cs ds (p.addTables (containTables config ⟨cs, x⟩)) hcontent
    rw [sweep, sweep, ← addTables_of_same x y hcontent]
    refine ⟨hbelow.state, hbelow.stop, same_root_iff.2 ⟨_, y, rfl, ?_, hx⟩⟩
    exact sameAll_map same_contain hbelow.value
  | .element t q cs x, n, p, h => by
    obtain ⟨r, ds, y, rfl, hp, hcontent, hx⟩ := same_element_iff.1 h
    have hsame : SameElement ⟨t, q, cs, x⟩ ⟨t, r, ds, y⟩ := ⟨rfl, hp, hcontent, hx⟩
    have hbelow := sweepAll_alike cs ds (p.addElement config ⟨t, q, cs, x⟩) hcontent
    -- equal elements stop both walks or neither
    rw [sweep, sweep, fault?_of_same hsame, ← addElement_of_same hsame]
    cases fault? config ⟨t, r, ds, y⟩ with
    | some missing => exact ⟨rfl, rfl, h⟩
    | none => exact ⟨hbelow.state, hbelow.stop, same_restyled hsame hbelow.value⟩
  | .text v x, n, p, h => by
    obtain ⟨y, rfl, hx⟩ := same_text_iff.1 h
    rw [sweep, sweep]
    exact ⟨rfl, rfl, h⟩
  | .other kind value cs x, n, p, h => by
    obtain ⟨_, _, _, _, rfl⟩ := exists_of_same_other h
    rw [sweep, sweep]
    exact ⟨rfl, rfl, h⟩

theorem sweepAll_alike : ∀ (ms ns : List Node) (p : Progress), sameAll ms ns = true →
    Alike sameAll (sweepAll config p ms) (sweepAll config p ns)
  | [], ns, p, h => by
    obtain rfl := sameAll_nil_iff.1 h
    rw [sweepAll]
    exact ⟨rfl, rfl, rfl⟩
  | m :: ms, ns, p, h => by
    obtain ⟨n, ns, rfl, hnode, hrest⟩ := sameAll_cons_iff.1 h
    have hfirst := sweep_alike m n p hnode
    have hlater := sweepAll_alike ms ns (sweep config p m).state hrest
    rw [sweepAll, sweepAll, ← hfirst.stop, ← hfirst.state]
    cases (sweep config p m).stop with
    | none =>
      exact ⟨hlater.state, hlater.stop, sameAll_cons_iff.2 ⟨_, _, rfl, hfirst.value, hlater.value⟩⟩
    | some missing =>
      exact ⟨rfl, rfl, sameAll_cons_iff.2 ⟨_, _, rfl, hfirst.value, hrest⟩⟩

end

/-- **Runs on equal trees are equal**: they stop for the same reason or not at all, count and report
the same, and leave equal trees, also where they stop. -/
theorem run_same (config : Config) (a b : Root) (h : a.toNode.same b.toNode = true) :
    (run config a).failure = (run config b).failure ∧ (run config a).tally = (run config b).tally ∧
      (run config a).events = (run config b).events ∧
      (run config a).root.toNode.same (run config b).root.toNode = true := by
  have halike := @sweep_alike config _ _ .start h
  rw [Root.toNode, Root.toNode, sweep, sweep] at halike
  have hstate : (sweepTree config .start a).state = (sweepTree config .start b).state := halike.state
  have hfailure : (run config a).failure = (run config b).failure := by
    rw [run_failure, run_failure]
    exact halike.stop
  have htally : (run config a).tally = (run config b).tally := by
    rw [run_tally, run_tally, hstate]
  refine ⟨hfailure, htally, ?_, ?_⟩
  · rw [run_report, run_report, hstate, hfailure, htally]
  · rw [run_root, run_root]
    exact halike.value

/-- A callout whose class is the number zero, and a heading; the sign of the zero and the order of the
callout's properties are given. -/
def sampleZero (negative : Bool) (order : List (String × PropertyValue) →
    List (String × PropertyValue)) : Root where
  children :=
    [.element "blockquote"
        (some (.ofList (order [("class", .number (.finite (.zero negative))), ("cite", .null)])))
        [.element "p" none [.ofText "(red) zero"] .empty] .empty,
      .element "h2" (some (.ofList [("id", .string "zero")])) [] .empty]
  extra := .empty

theorem run_same_sampleZero :
    (sampleZero true id).toNode.same (sampleZero false List.reverse).toNode = true ∧
      (run {} (sampleZero true id)).failure = (run {} (sampleZero false List.reverse)).failure ∧
      (run {} (sampleZero true id)).tally = (run {} (sampleZero false List.reverse)).tally ∧
      (run {} (sampleZero true id)).events = (run {} (sampleZero false List.reverse)).events ∧
      (run {} (sampleZero true id)).root.toNode.same
        (run {} (sampleZero false List.reverse)).root.toNode = true := by
  have hsame : (sampleZero true id).toNode.same (sampleZero false List.reverse).toNode = true := by
    decide
  exact ⟨hsame, run_same {} _ _ hsame⟩

end Docs

end DocTree
