import DocTree.Proofs.Docs.Rewritten
import DocTree.Proofs.Node.Decoded

/-!
# How much deeper a run makes a tree nest

A container puts two levels above a table, and there may be several containers on one path where
roots stand inside of a tree: `tablesOnPath` counts them.  An anchor goes up to three levels below
the property map of its heading, and what is written has the empty content that may have been left
out.  These three are not added up but for the containers (`nesting_rewritten_le`).
-/

namespace DocTree.Docs

open Json Node

/-! ### Tables on one path -/

mutual

/-- The most tables directly under a root on one path down from the node, as far as a run goes. -/
def tablesOnPath : Node → Nat
  | .root children _ => tablesUnderRoot children
  | .element _ _ children _ => tablesOnPathAll children
  | .text .. => 0
  | .other .. => 0

/-- The same for nodes beside each other. -/
def tablesOnPathAll : List Node → Nat
  | [] => 0
  | node :: rest => max (tablesOnPath node) (tablesOnPathAll rest)

/-- The same for nodes beside each other directly under a root, where a table counts itself. -/
def tablesUnderRoot : List Node → Nat
  | [] => 0
  | node :: rest => max (tablesOnPath node + (isTable node).toNat) (tablesUnderRoot rest)

end

mutual

/-- No root stands where a run comes by below the node, which is none itself. -/
def Rootless : Node → Prop
  | .root .. => False
  | .element _ _ children _ => AllRootless children
  | .text .. => True
  | .other .. => True

/-- No node has a root in it. -/
def AllRootless : List Node → Prop
  | [] => True
  | node :: rest => Rootless node ∧ AllRootless rest

end

mutual

theorem tablesOnPath_of_rootless : ∀ node : Node, Rootless node → tablesOnPath node = 0
  | .root .., h => by
    rw [Rootless] at h
    exact h.elim
  | .element tag properties children extra, h => by
    rw [Rootless] at h
    rw [tablesOnPath, tablesOnPathAll_of_rootless children h]
  | .text .., _ => by rw [tablesOnPath]
  | .other .., _ => by rw [tablesOnPath]

theorem tablesOnPathAll_of_rootless : ∀ nodes : List Node, AllRootless nodes →
    tablesOnPathAll nodes = 0
  | [], _ => by rw [tablesOnPathAll]
  | node :: rest, h => by
    rw [AllRootless] at h
    rw [tablesOnPathAll, tablesOnPath_of_rootless node h.1, tablesOnPathAll_of_rootless rest h.2,
      Nat.max_self]

end

/-- Without roots inside of a tree there is no more than one table on a path. -/
theorem tablesUnderRoot_le_one {nodes : List Node} (h : AllRootless nodes) :
    tablesUnderRoot nodes ≤ 1 := by
  induction nodes with
  | nil =>
    rw [tablesUnderRoot]
    exact Nat.zero_le _
  | cons node rest ih =>
    rw [AllRootless] at h
    rw [tablesUnderRoot, tablesOnPath_of_rootless node h.1, Nat.zero_add]
    exact Nat.max_le.2 ⟨Bool.toNat_le _, ih h.2⟩

/-! ### What the rules do to the nesting -/

variable {config : Config}

theorem nesting_insert_le (p : Properties) (name s : String) :
    (p.insert name (.string s)).toJson.nesting ≤ p.toJson.nesting := by
  rw [Properties.toJson, Properties.toJson, Json.nesting, Json.nesting]
  refine Nat.succ_le_succ (nestingMembers_le_iff.2 fun m hm => ?_)
  obtain ⟨entry, hentry, rfl⟩ := List.mem_map.1 hm
  rcases Properties.mem_put hentry with rfl | hentry
  · exact (nesting_string s).trans_le (Nat.zero_le _)
  · exact nesting_le_of_mem
      (m := (entry.1, entry.2.toJson)) (List.mem_map.2 ⟨entry, hentry, rfl⟩)

/-- The rules give a class only to an element with a property map. -/
theorem propertiesNesting_reclass_le (config : Config) (e : Element) :
    propertiesNesting (reclass config e) ≤ propertiesNesting e.properties := by
  have hinsert (h : e.properties.isSome) (s : String) :
      propertiesNesting (some (e.propertyMap.insert "class" (.string s))) ≤
        propertiesNesting e.properties := by
    obtain ⟨p, hp⟩ := Option.isSome_iff_exists.1 h
    have hmap : e.propertyMap = p := by rw [Element.propertyMap, hp, Option.getD_some]
    rw [hp, hmap]
    exact nesting_insert_le p "class" s
  unfold reclass
  cases hl : calloutLead? e with
  | some lead => exact hinsert (isSome_properties_of_calloutLead? hl) _
  | none =>
    cases hid : permalinkId? e with
    | some id => exact hinsert (isSome_properties_of_permalinkId? hid) _
    | none => exact Nat.le_refl _

theorem nestingAll_setLeadText (value : String) (nodes : List Node) :
    nestingAll (setLeadText value nodes) = nestingAll nodes := by
  induction nodes with
  | nil => rfl
  | cons node rest ih =>
    cases hn : node.text? with
    | none => rw [setLeadText_cons hn, nestingAll, nestingAll, ih]
    | some text =>
      cases node with
      | text _ extra => rw [setLeadText, nestingAll, nestingAll, Node.nesting, Node.nesting]
      | _ => cases hn

theorem nesting_mapContent (value : String) (node : Node) :
    (mapContent (setLeadText value) node).nesting = node.nesting := by
  cases node with
  | element tag properties children extra =>
    rw [mapContent, Node.nesting, Node.nesting, nestingAll_setLeadText]
  | _ => rfl

theorem nestingAll_modify {f : Node → Node} (h : ∀ node, (f node).nesting = node.nesting)
    (nodes : List Node) (i : Nat) : nestingAll (nodes.modify i f) = nestingAll nodes := by
  induction nodes generalizing i with
  | nil => cases i <;> rfl
  | cons node rest ih =>
    cases i with
    | zero => rw [List.modify_zero_cons, nestingAll, nestingAll, h]
    | succ i => rw [List.modify_succ_cons, nestingAll, nestingAll, ih]

theorem nesting_permalinkAnchor (config : Config) (id : String) :
    (permalinkAnchor config id).nesting = 3 := rfl

theorem nestingAll_append (nodes later : List Node) :
    nestingAll (nodes ++ later) = max (nestingAll nodes) (nestingAll later) := by
  induction nodes with
  | nil => simp [nestingAll]
  | cons node rest ih => rw [List.cons_append, nestingAll, nestingAll, ih, Nat.max_assoc]

/-- An anchor goes no more than three levels below the property map of its heading. -/
theorem nestingAll_restyle_le (config : Config) (e : Element) (content : List Node) :
    nestingAll (restyle config e content) + 1 ≤
      max (nestingAll content + 1) (propertiesNesting e.properties + 3) := by
  unfold restyle
  cases hl : calloutLead? e with
  | some lead =>
    -- a lead text nests no deeper for being shorter
    dsimp only
    rw [nestingAll_modify (nesting_mapContent _)]
    exact Nat.le_max_left _ _
  | none =>
    cases hid : permalinkId? e with
    | some id =>
      obtain ⟨p, hp⟩ := Option.isSome_iff_exists.1 (isSome_properties_of_permalinkId? hid)
      have hmap : 1 ≤ propertiesNesting e.properties := by
        rw [hp, propertiesNesting, Properties.toJson, Json.nesting]
        exact Nat.succ_le_succ (Nat.zero_le _)
      have hanchor : nestingAll [permalinkAnchor config id] = 3 := by
        rw [nestingAll, nesting_permalinkAnchor, nestingAll, Nat.max_zero]
      dsimp only
      rw [nestingAll_append, hanchor]
      omega
    | none => exact Nat.le_max_left _ _

theorem nesting_tableContainer (config : Config) (table : Node) :
    (tableContainer config table).nesting = table.nesting + 2 := by
  have h : (tableContainer config table).nesting = max (max 1 (max table.nesting 0 + 1)) 0 + 1 := rfl
  omega

theorem nesting_contain (config : Config) (node : Node) :
    (contain config node).nesting = node.nesting + 2 * (isTable node).toNat := by
  unfold contain
  cases isTable node with
  | true => exact nesting_tableContainer config node
  | false => rfl

/-! ### The accounting -/

/-- Around content there is an array, which counts only if it is not left out. -/
theorem nestingAll_add_one_le {nodes out : List Node} {levels : Nat} (hempty : nodes = [] → out = [])
    (h : nestingAll out ≤ leastNestingAll nodes + levels + 3) :
    nestingAll out + 1 ≤ contentNesting nodes + levels + 3 := by
  cases nodes with
  | nil =>
    rw [hempty rfl, nestingAll]
    omega
  | cons node rest =>
    rw [leastNestingAll] at h
    rw [contentNesting]
    omega

mutual

/-- **A run adds no more levels than two for every table on a path, and three.** -/
theorem nesting_rewritten_le : ∀ node : Node,
    (rewritten config node).nesting ≤ node.leastNesting + 2 * tablesOnPath node + 3
  | .root children extra => by
    have hempty : children = [] → (rewrittenAll config children).map (contain config) = [] := by
      rintro rfl
      rw [rewrittenAll, List.map_nil]
    have hcontent := nestingAll_add_one_le hempty (nestingAll_contain_le children)
    rw [rewritten, Node.nesting, leastNesting, tablesOnPath]
    omega
  | .element tag properties children extra => by
    have hempty : children = [] → rewrittenAll config children = [] := by
      rintro rfl
      rw [rewrittenAll]
    have hcontent := nestingAll_add_one_le hempty (nestingAll_rewrittenAll_le children)
    have hproperties := propertiesNesting_reclass_le config ⟨tag, properties, children, extra⟩
    have hrestyle := nestingAll_restyle_le config ⟨tag, properties, children, extra⟩
      (rewrittenAll config children)
    rw [rewritten, restyled, Element.toNode, Node.nesting, leastNesting, tablesOnPath]
    simp only at hproperties hrestyle ⊢
    omega
  | .text value extra => by
    have h := nesting_le_leastNesting (.text value extra)
    rw [rewritten]
    omega
  | .other kind value children extra => by
    have h := nesting_le_leastNesting (.other kind value children extra)
    rw [rewritten]
    omega

theorem nestingAll_rewrittenAll_le : ∀ nodes : List Node,
    nestingAll (rewrittenAll config nodes) ≤ leastNestingAll nodes + 2 * tablesOnPathAll nodes + 3
  | [] => by
    rw [rewrittenAll, nestingAll]
    omega
  | node :: rest => by
    have hnode := nesting_rewritten_le node
    have hrest := nestingAll_rewrittenAll_le rest
    rw [rewrittenAll, nestingAll, leastNestingAll, tablesOnPathAll]
    omega

theorem nestingAll_contain_le : ∀ nodes : List Node,
    nestingAll ((rewrittenAll config nodes).map (contain config)) ≤
      leastNestingAll nodes + 2 * tablesUnderRoot nodes + 3
  | [] => by
    rw [rewrittenAll, List.map_nil, nestingAll]
    omega
  | node :: rest => by
    have hnode := nesting_rewritten_le node
    have hrest := nestingAll_contain_le rest
    rw [rewrittenAll, List.map_cons, nestingAll, leastNestingAll, tablesUnderRoot,
      nesting_contain, isTable_rewritten]
    omega

end

end DocTree.Docs
