import DocTree.Proofs.Docs.Closure
import DocTree.Proofs.Docs.Repeated
import DocTree.Proofs.Walk.Visits

/-!
# What a run visits

The rules add nodes below the nodes that they are called on, and the walk goes into all of them.  It
still comes to an end: an anchor or a container matches no rule, so of the tree that is left no path is
longer than twice the path before (`height_rewritten_le`).  Each of these nodes is visited once, as is
every node of the tree before, so a run makes one call for every reachable root and element and for
every heading and table that it counts (`run_visits`).
-/

namespace DocTree.Docs

open Node

variable {config : Config}

/-! ### How high the tree grows -/

theorem heightAll_le_iff {nodes : List Node} {n : Nat} :
    heightAll nodes ≤ n ↔ ∀ node ∈ nodes, node.height ≤ n := by
  induction nodes with
  | nil => simp [heightAll]
  | cons node rest ih => rw [heightAll, Nat.max_le, ih, List.forall_mem_cons]

theorem heightAll_setLeadText (value : String) (nodes : List Node) :
    heightAll (setLeadText value nodes) = heightAll nodes := by
  induction nodes with
  | nil => rfl
  | cons node rest ih =>
    cases htext : node.text? with
    | none => rw [setLeadText_cons htext, heightAll, heightAll, ih]
    | some text =>
      cases node with
      | text => rfl
      | _ => cases htext

theorem height_mapContent_setLeadText (value : String) (node : Node) :
    (mapContent (setLeadText value) node).height = node.height := by
  cases node with
  | element tag properties children extra =>
    exact congrArg (· + 1) (heightAll_setLeadText value children)
  | _ => rfl

/-- The rules of an element make its content no higher, but for an anchor. -/
theorem heightAll_restyle_le {e : Element} {content : List Node} {n : Nat} (hn : 0 < n)
    (h : heightAll content ≤ n) : heightAll (restyle config e content) ≤ n := by
  unfold restyle
  cases calloutLead? e with
  | some lead =>
    refine heightAll_le_iff.2 ((forall_mem_modify (fun node => ?_) content lead.1).2
      (heightAll_le_iff.1 h))
    rw [height_mapContent_setLeadText]
  | none =>
    cases permalinkId? e with
    | none => exact h
    | some id =>
      refine heightAll_le_iff.2 (List.forall_mem_append.2 ⟨heightAll_le_iff.1 h, ?_⟩)
      exact fun node hnode => List.mem_singleton.1 hnode ▸ hn

theorem height_contain_le (node : Node) : (contain config node).height ≤ node.height + 1 := by
  unfold contain
  split
  · exact Nat.succ_le_succ (Nat.max_le.2 ⟨Nat.le_refl _, Nat.zero_le _⟩)
  · exact Nat.le_succ _

theorem heightAll_contain_le (nodes : List Node) :
    heightAll (nodes.map (contain config)) ≤ heightAll nodes + 1 := by
  refine heightAll_le_iff.2 fun contained hcontained => ?_
  obtain ⟨node, hnode, rfl⟩ := List.mem_map.1 hcontained
  have hbelow := heightAll_le_iff.1 (Nat.le_refl (heightAll nodes)) node hnode
  exact (height_contain_le node).trans (Nat.succ_le_succ hbelow)

mutual

/-- A run makes no path down from a node more than twice as long. -/
theorem height_rewritten_le : ∀ node : Node, (rewritten config node).height ≤ 2 * node.height
  | .root children extra => by
    have hbelow := heightAll_rewrittenAll_le children
    have hcontained := @heightAll_contain_le config (rewrittenAll config children)
    rw [rewritten, height, height]
    omega
  | .element tag properties children extra => by
    have hbelow := heightAll_rewrittenAll_le children
    have hrestyled := @heightAll_restyle_le config ⟨tag, properties, children, extra⟩ _
      (2 * heightAll children + 1) (Nat.succ_pos _) (Nat.le_succ_of_le hbelow)
    rw [rewritten, height]
    exact Nat.succ_le_succ hrestyled
  | .text .. => by
    rw [rewritten]
    exact Nat.zero_le _
  | .other .. => by
    rw [rewritten]
    exact Nat.zero_le _

theorem heightAll_rewrittenAll_le : ∀ nodes : List Node,
    heightAll (rewrittenAll config nodes) ≤ 2 * heightAll nodes
  | [] => Nat.zero_le _
  | node :: rest => by
    have hnode := height_rewritten_le node
    have hrest := heightAll_rewrittenAll_le rest
    rw [rewrittenAll, heightAll, heightAll]
    omega

end

/-! ### What the rules add to the visits -/

theorem flatMap_visits_setLeadText (value : String) (nodes : List Node) :
    (setLeadText value nodes).flatMap visits = nodes.flatMap visits := by
  induction nodes with
  | nil => rfl
  | cons node rest ih =>
    cases htext : node.text? with
    | none => rw [setLeadText_cons htext, List.flatMap_cons, List.flatMap_cons, ih]
    | some text =>
      cases node with
      | text => rfl
      | _ => cases htext

theorem visits_mapContent_setLeadText (value : String) (node : Node) :
    (mapContent (setLeadText value) node).visits = node.visits := by
  cases node with
  | element tag properties children extra =>
    have hsite := fun content => visits_toNode (.element ⟨tag, properties, content, extra⟩)
    exact (hsite _).trans ((congrArg (some tag :: ·)
      (flatMap_visits_setLeadText value children)).trans (hsite _).symm)
  | _ => rfl

/-- The nodes that the rules add where they count this: an anchor for a heading, and a container for a
table. -/
def Tally.added (tally : Tally) : Nat := tally.headings + tally.tables

theorem Tally.added_add (a b : Tally) : (a + b).added = a.added + b.added :=
  Nat.add_add_add_comm a.headings b.headings a.tables b.tables

/-- Of the rules of an element, only a permalink adds a node to its content. -/
theorem length_visits_restyle (e : Element) (content : List Node) :
    ((restyle config e content).flatMap visits).length =
      (content.flatMap visits).length + (Site.element e).tally.added := by
  rw [Site.tally, Tally.added]
  unfold restyle
  cases hlead : calloutLead? e with
  | some lead =>
    rw [permalinkId?_of_calloutLead? hlead]
    exact congrArg List.length (flatMap_modify fun node _ => visits_mapContent_setLeadText _ node)
  | none =>
    cases permalinkId? e with
    | none => rfl
    | some id =>
      dsimp only
      rw [List.flatMap_append, List.length_append]
      rfl

theorem length_tablePositions (nodes : List Node) :
    (tablePositions nodes).length = nodes.countP isTable := by
  have hmap : nodes.zipIdx.map (·.1) = nodes := List.zipIdx_map_fst 0 nodes
  rw [tablePositions, List.length_map, ← List.countP_eq_length_filter]
  conv_rhs => rw [← hmap, List.countP_map]
  rfl

/-- Of the content of a root, every table gets a node around it. -/
theorem length_visits_contain (nodes : List Node) :
    ((nodes.map (contain config)).flatMap visits).length =
      (nodes.flatMap visits).length + nodes.countP isTable := by
  induction nodes with
  | nil => rfl
  | cons node rest ih =>
    rw [List.map_cons, List.flatMap_cons, List.flatMap_cons, List.length_append,
      List.length_append, ih, List.countP_cons, contain]
    by_cases htable : isTable node = true
    · have hcontainer : (tableContainer config node).visits = some "div" :: node.visits :=
        (visits_toNode (.element _)).trans (congrArg (some "div" :: ·) (List.append_nil _))
      rw [if_pos htable, if_pos htable, hcontainer, List.length_cons]
      omega
    · rw [if_neg htable, if_neg htable]
      omega

theorem countP_isTable_rewrittenAll (nodes : List Node) :
    (rewrittenAll config nodes).countP isTable = nodes.countP isTable := by
  rw [rewrittenAll_eq_map, List.countP_map]
  exact List.countP_congr fun node _ => by rw [Function.comp, isTable_rewritten]

mutual

/-- After a run there is one more node to visit for every heading and every table that it counts. -/
theorem length_visits_rewritten : ∀ node : Node,
    (rewritten config node).visits.length = node.visits.length + (total (sites node)).added
  | .root children extra => by
    have hbelow := length_visits_rewrittenAll children
    have hvisits := fun content => congrArg List.length (visits_toNode (.root ⟨content, extra⟩))
    simp only [Site.toNode, Root.toNode, Site.children, List.length_cons] at hvisits
    have hown : (Site.root ⟨children, extra⟩).tally.added = children.countP isTable :=
      (Nat.zero_add _).trans (length_tablePositions children)
    -- a container is visited for every table in the content
    have htotal := Tally.added_add (Site.root ⟨children, extra⟩).tally (total (sitesAll children))
    rw [rewritten, hvisits, hvisits, length_visits_contain, countP_isTable_rewrittenAll, hbelow,
      sites, total_cons, htotal, hown]
    omega
  | .element tag properties children extra => by
    have hbelow := length_visits_rewrittenAll children
    have hvisits := fun properties content => congrArg List.length
      (visits_toNode (.element ⟨tag, properties, content, extra⟩))
    simp only [Site.toNode, Element.toNode, Site.children, List.length_cons] at hvisits
    -- an anchor is visited if this is a heading
    have hown := @length_visits_restyle config ⟨tag, properties, children, extra⟩
      (rewrittenAll config children)
    have htotal := Tally.added_add (Site.element ⟨tag, properties, children, extra⟩).tally
      (total (sitesAll children))
    rw [rewritten, restyled, Element.toNode, hvisits, hvisits, hown, hbelow, sites, total_cons,
      htotal]
    omega
  | .text .. => by
    rw [rewritten]
    rfl
  | .other .. => by
    rw [rewritten]
    rfl

theorem length_visits_rewrittenAll : ∀ nodes : List Node,
    ((rewrittenAll config nodes).flatMap visits).length =
      (nodes.flatMap visits).length + (total (sitesAll nodes)).added
  | [] => rfl
  | node :: rest => by
    have hnode := length_visits_rewritten node
    have hrest := length_visits_rewrittenAll rest
    rw [rewrittenAll, sitesAll, total_append, Tally.added_add, List.flatMap_cons, List.flatMap_cons,
      List.length_append, List.length_append, hnode, hrest]
    omega

end

/-! ### Runs -/

/-- The rules leave the tags of elements. -/
theorem keepsTags_rules : (rules config).KeepsTags := by
  intro p site
  cases site with
  | root r => rfl
  | element e =>
    rw [Editor.call, rules_element]
    cases fault? config e <;> rfl

/-- **A run visits every root and element of the tree that it leaves, once and in pre-order**, however
deep the walk might go: there is one visit for every one of the tree before, and one for every heading
and table that is counted. -/
theorem run_visits {r : Root} (hend : (run config r).failure = none) {limit : Nat}
    (deep : walkLimit r ≤ limit) :
    let watched := (rules config).watched.walkTree limit (.start, []) r
    watched.stop = none ∧ watched.value = (run config r).root ∧
    watched.state.1.tally = (run config r).tally ∧
    watched.state.2 = (sites (run config r).root.toNode).map Site.tag? ∧
    watched.state.2.length = (sites r.toNode).length + (run config r).tally.headings +
      (run config r).tally.tables := by
  intro watched
  have hlt := (two_mul_heightAll_lt_walkLimit r).trans_le deep
  have hsweep := @walkTree_eq_sweepTree_of_lt config limit r hlt .start
  -- watched or not, the walk is the same
  have hforget : (watched.map Root.toNode).mapState Prod.fst =
      ((rules config).walkTree limit .start r).map Root.toNode :=
    Editor.forgetVisits_walk (limit + 1) (Progress.start, []) r.toNode
  rw [hsweep] at hforget
  have hstop : watched.stop = none := by
    rw [← hend, run_failure]
    exact congrArg Outcome.stop hforget
  have hvalue : watched.value = (run config r).root := by
    rw [run_root]
    exact Root.toNode_injective (congrArg Outcome.value hforget)
  have htally : watched.state.1.tally = (run config r).tally := by
    rw [run_tally]
    exact congrArg (·.state.tally) hforget
  have hrewritten : (run config r).root.toNode = rewritten config r.toNode := by
    rw [run_root_of_not_failed hend, toNode_rewrittenTree]
  have hheight : watched.value.toNode.height ≤ limit + 1 := by
    have hbelow := @heightAll_rewrittenAll_le config r.children
    have hcontained := @heightAll_contain_le config (rewrittenAll config r.children)
    rw [hvalue, hrewritten, Root.toNode, rewritten, height]
    omega
  have hvisits : watched.state.2 = (sites (run config r).root.toNode).map Site.tag? := by
    rw [← hvalue]
    exact Editor.visits_walk keepsTags_rules (limit + 1) (Progress.start, []) r.toNode hstop hheight
  refine ⟨hstop, hvalue, htally, hvisits, ?_⟩
  have hlength := @length_visits_rewritten config r.toNode
  rw [← hrewritten, visits, visits, List.length_map, List.length_map] at hlength
  rw [hvisits, List.length_map, hlength, run_tally_eq_total hend]
  exact (Nat.add_assoc ..).symm

/-- A table, a callout with a heading in it, a heading below a node of another kind, and a table under
a root in the tree. -/
def sampleVisited : Root where
  children :=
    [.element "table" none [] .empty,
      .element "blockquote" (some .empty)
        [.element "p" none [.ofText "(warn) careful"] .empty,
          .element "h1" (some (.ofList [("id", .string "top")])) [] .empty] .empty,
      .other "raw" none (some [.element "h2" (some (.ofList [("id", .string "in")])) [] .empty]) .empty,
      .root [.element "table" none [] .empty] .empty]
  extra := .empty

theorem run_visits_sampleVisited :
    (run {} sampleVisited).failure = none ∧ walkLimit sampleVisited ≤ 20 ∧
    ((rules {}).watched.walkTree 20 (.start, []) sampleVisited).state.2 =
      [none, some "div", some "table", some "blockquote", some "p", some "h1", some "a", none,
        some "div", some "table"] := by
  have hend : (run {} sampleVisited).failure = none := run_failure_of_lenient rfl sampleVisited
  obtain ⟨-, -, -, hvisits, -⟩ := @run_visits {} sampleVisited hend 20 (by decide)
  exact ⟨hend, by decide, hvisits.trans rfl⟩

end DocTree.Docs
