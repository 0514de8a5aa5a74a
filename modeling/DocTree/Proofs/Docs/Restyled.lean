import DocTree.Proofs.Docs.Markers
import DocTree.Proofs.Docs.Rewritten

/-!
# The rules on what they have treated

What a second run meets.  The nodes that the rules add are passed by a run as they are
(`rewritten_permalinkAnchor`, `rewritten_contain`).  A heading with a permalink is such a heading again
(`permalinkId?_restyled`), and a callout is a callout again, with the lead text that is left of its own
(`calloutLead?_restyled`).
-/

namespace DocTree.Docs

variable {config : Config}

theorem rewrittenAll_eq_map (nodes : List Node) :
    rewrittenAll config nodes = nodes.map (rewritten config) := by
  induction nodes with
  | nil => rfl
  | cons node rest ih => rw [rewrittenAll, List.map_cons, ih]

/-! ### What the rules add -/

/-- Of an element that no rule is about, a run rewrites the content alone. -/
theorem rewritten_of_inert {e : Element} (h : Inert e) :
    rewritten config e.toNode = { e with children := e.children.map (rewritten config) }.toNode := by
  rw [Element.toNode, rewritten, rewrittenAll_eq_map, restyled_of_inert h]

theorem rewritten_permalinkAnchor (id : String) :
    rewritten config (permalinkAnchor config id) = permalinkAnchor config id :=
  (rewritten_of_inert (inert_of_tag "a" rfl (by decide))).trans rfl

theorem rewritten_tableContainer (node : Node) :
    rewritten config (tableContainer config node) = tableContainer config (rewritten config node) :=
  (rewritten_of_inert (inert_of_tag "div" rfl (by decide))).trans rfl

/-- A table may be put into its container before or after it is rewritten. -/
theorem rewritten_contain (node : Node) :
    rewritten config (contain config node) = contain config (rewritten config node) := by
  unfold contain
  rw [isTable_rewritten]
  by_cases ht : isTable node = true
  · rw [if_pos ht, if_pos ht, rewritten_tableContainer]
  · rw [if_neg ht, if_neg ht]

@[simp] theorem isTable_contain (node : Node) : isTable (contain config node) = false := by
  unfold contain
  split
  · rfl
  next ht => simpa using ht

/-- A container is no table, so it is not put into another one. -/
@[simp] theorem contain_contain (node : Node) :
    contain config (contain config node) = contain config node := by
  rw [contain, isTable_contain]
  rfl

/-! ### What the rules read again -/

theorem leadText?_setLeadText (value : String) {nodes : List Node} {lead : String}
    (h : leadText? nodes = some lead) : leadText? (setLeadText value nodes) = some value := by
  induction nodes with
  | nil => cases h
  | cons node rest ih =>
    cases htext : node.text? with
    | none =>
      rw [leadText?, List.findSome?_cons, htext] at h
      rw [setLeadText_cons htext, leadText?, List.findSome?_cons, htext]
      exact ih h
    | some text =>
      cases node with
      | text => rfl
      | _ => cases htext

theorem lead?_mapContent (value : String) {node : Node} {lead : String} (h : node.lead? = some lead) :
    (mapContent (setLeadText value) node).lead? = some value := by
  cases node with
  | element => exact leadText?_setLeadText value h
  | _ => cases h

theorem hasTag_mapContent (f : List Node → List Node) (tag : String) (node : Node) :
    (mapContent f node).hasTag tag = node.hasTag tag := by
  cases node <;> rfl

theorem findIdx?_hasTag_modify (tag : String) (f : List Node → List Node) (nodes : List Node)
    (i : Nat) : (nodes.modify i (mapContent f)).findIdx? (·.hasTag tag) =
      nodes.findIdx? (·.hasTag tag) := by
  induction nodes generalizing i with
  | nil => cases i <;> rfl
  | cons node rest ih =>
    cases i with
    | zero => rw [List.modify_zero_cons, List.findIdx?_cons, List.findIdx?_cons, hasTag_mapContent]
    | succ i => rw [List.modify_succ_cons, List.findIdx?_cons, List.findIdx?_cons, ih]

/-- A callout with another lead text is a callout with that lead text. -/
theorem calloutLead?_modify {e : Element} {i : Nat} {lead : String}
    (h : calloutLead? e = some (i, lead)) (properties : Properties) (value : String) :
    calloutLead? { e with
      properties := some properties
      children := e.children.modify i (mapContent (setLeadText value)) } = some (i, value) := by
  have hparagraph := calloutParagraph?_of_calloutLead? h
  -- the paragraph is found by tags, and they stay
  have hsame : calloutParagraph? { e with
      properties := some properties
      children := e.children.modify i (mapContent (setLeadText value)) } = some i := by
    rw [← hparagraph]
    simp only [calloutParagraph?, findIdx?_hasTag_modify, tag_of_calloutParagraph? hparagraph,
      isSome_properties_of_calloutLead? h, Option.isSome_some]
  rw [calloutLead?, hparagraph, Option.bind_some, Option.map_eq_some_iff] at h
  obtain ⟨_, hlead, ⟨⟩⟩ := h
  obtain ⟨node, hnode, hlead⟩ := Option.bind_eq_some_iff.1 hlead
  rw [calloutLead?, hsame, Option.bind_some]
  simp only [List.getElem?_modify, hnode]
  simp [lead?_mapContent value hlead]

section Faces

variable {e : Element} {content : List Node}

/-- A heading with a permalink has the same one after its rules. -/
theorem permalinkId?_restyled (e : Element) (content : List Node) :
    permalinkId? (restyled config e content) = permalinkId? e := by
  have hid : (restyled config e content).property? "id" = e.property? "id" := by
    have hinsert : ∀ value, (some (e.propertyMap.insert "class" value)).bind (·.get? "id") =
        e.property? "id" := fun value => by
      rw [Option.bind_some, Properties.get?_insert, if_neg (by decide), Element.property?,
        Element.propertyMap]
      cases e.properties <;> rfl
    -- the class is the one property that the rules set
    unfold restyled reclass Element.property?
    cases calloutLead? e with
    | some lead => exact hinsert _
    | none =>
      cases permalinkId? e with
      | some id => exact hinsert _
      | none => rfl
  rw [permalinkId?_eq, permalinkId?_eq, hid]
  rfl

/-- A callout is a callout after its rules, with the lead text that is left. -/
theorem calloutLead?_restyled (h : content.map Node.face = e.children.map Node.face) :
    calloutLead? (restyled config e content) =
      (calloutLead? e).map fun lead => (lead.1, strippedLead lead.2) := by
  cases hl : calloutLead? e with
  | some lead =>
    obtain ⟨i, lead⟩ := lead
    have hcontent := (calloutLead?_content h).trans hl
    rw [restyled, reclass, restyle, hl]
    exact calloutLead?_modify hcontent _ _
  | none =>
    cases hid : permalinkId? e with
    | some id =>
      -- a heading is no blockquote, whatever its content
      have htag : e.tag ≠ "blockquote" := fun htag => by simp [permalinkId?_of_tag htag] at hid
      simp [calloutLead?, calloutParagraph?, restyled, htag]
    | none =>
      have hsame : restyled config e content = { e with children := content } := by
        rw [restyled, reclass, restyle, hl, hid]
      rw [hsame, calloutLead?_content h, hl]
      rfl

end Faces

end DocTree.Docs
