import DocTree.Proofs.Docs.Effect

/-!
# The walk as a recursion on the tree before it

The walk runs on the tree that it changes: it goes into content the rules have just left, with a
limit on its depth.  `sweep` goes through the tree as it was, without a limit: at every node it
counts what the rules do, goes on into the content from before, and lets the rules act on what
comes back.  Both give the same (`walk_eq_sweep`), also where strict mode stops them, since

* what the rules change in a node's content is passed by the walk as it is: an anchor is left alone
  (`walkAll_concat`), a container is passed through (`walk_tableContainer`), and a lead text is no
  node the walk looks at (`walkAll_setLeadText`);
* nothing the walk does in a node's content changes a face in it (`face_sweep`), so the rules act on
  it as they would have before.

A walk that comes to its end makes of every node what the rules make of it once its content is done
(`rewritten`).
-/

namespace DocTree

namespace Outcome

variable {σ β α γ δ : Type}

@[simp] theorem map_map (o : Outcome σ β α) (f : α → γ) (g : γ → δ) :
    (o.map f).map g = o.map (g ∘ f) := rfl

theorem inOrder_concat {f : σ → α → Outcome σ β α} {last : α}
    (h : ∀ s, f s last = .unchanged s last) (s : σ) (items : List α) :
    inOrder f s (items ++ [last]) = (inOrder f s items).map (· ++ [last]) := by
  induction items generalizing s with
  | nil => simp [inOrder, h, unchanged, map]
  | cons item rest ih =>
    simp only [List.cons_append, inOrder]
    cases (f s item).stop with
    | none => rw [ih]; rfl
    | some reason => rfl

/-- What is done to one item may be done before or after the walk, if the walk of that item does not
mind. -/
theorem inOrder_modify {f : σ → α → Outcome σ β α} {g : α → α} {items : List α} {i : Nat}
    (h : ∀ item, items[i]? = some item → ∀ s, f s (g item) = (f s item).map g) (s : σ) :
    inOrder f s (items.modify i g) = (inOrder f s items).map (·.modify i g) := by
  induction items generalizing s i with
  | nil => cases i <;> rfl
  | cons item rest ih =>
    cases i with
    | zero =>
      simp only [List.modify_zero_cons, inOrder, h item rfl s]
      simp only [map]
      cases (f s item).stop with
      | none => rfl
      | some reason => rfl
    | succ i =>
      simp only [List.modify_succ_cons, inOrder]
      cases (f s item).stop with
      | none => rw [ih fun item hi => h item (by simpa using hi)]; rfl
      | some reason => rfl

end Outcome

namespace Docs

variable {config : Config}

/-! ### Elements that no rule is about -/

/-- Whether an element has the tag of no rule. -/
def Inert (e : Element) : Prop := e.tag ≠ "blockquote" ∧ e.tag ∉ permalinkTags

/-- The elements that the rules add and the paragraphs of callouts are such elements. -/
theorem inert_of_tag {e : Element} (tag : String) (h : e.tag = tag) (htag : tag ∈ ["a", "div", "p"]) :
    Inert e := by
  have hall : ∀ tag ∈ ["a", "div", "p"], tag ≠ "blockquote" ∧ tag ∉ permalinkTags := by decide
  rw [Inert, h]
  exact hall tag htag

theorem calloutParagraph?_of_inert {e : Element} (h : Inert e) : calloutParagraph? e = none := by
  simp [calloutParagraph?, h.1]

theorem calloutLead?_of_inert {e : Element} (h : Inert e) : calloutLead? e = none := by
  simp [calloutLead?, calloutParagraph?_of_inert h]

theorem permalinkId?_of_inert {e : Element} (h : Inert e) : permalinkId? e = none :=
  permalinkId?_of_not_mem h.2

theorem restyled_of_inert {e : Element} (h : Inert e) (content : List Node) :
    restyled config e content = { e with children := content } := by
  simp only [restyled, reclass, restyle, calloutLead?_of_inert h, permalinkId?_of_inert h]

theorem fault?_of_inert {e : Element} (h : Inert e) : fault? config e = none := by
  simp only [fault?, calloutParagraph?_of_inert h]

theorem rules_element_of_inert {e : Element} (h : Inert e) (p : Progress) :
    (rules config).element p e = .unchanged p e := by
  have hs : styledCallout config e = .unchanged e := by
    simp only [styledCallout, calloutParagraph?_of_inert h]
  have hl : linkHeading config e = .unchanged e := by
    simp only [linkHeading, permalinkId?_of_inert h]
  have hp : p.addElement config e = p := by
    simp [Progress.addElement, hs, hl, Progress.addCallouts, Progress.addHeadings, Edit.unchanged]
  rw [rules_element, fault?_of_inert h, hp, restyled_of_inert h]

/-- The walk passes through an element with the tag of no rule. -/
theorem walk_of_inert {e : Element} (h : Inert e) (limit : Nat) (p : Progress) :
    (rules config).walk (limit + 1) p e.toNode =
      ((rules config).walkAll limit p e.children).map fun content =>
        { e with children := content }.toNode := by
  change Outcome.map Element.toNode (((rules config).element p e).andThen _) = _
  rw [rules_element_of_inert h]
  rfl

/-! ### What the rules leave is passed by the walk -/

theorem text?_walk (limit : Nat) (p : Progress) (node : Node) :
    ((rules config).walk limit p node).value.text? = node.text? := by
  cases limit with
  | zero => rfl
  | succ limit => cases node <;> rfl

theorem walk_ofText (limit : Nat) (p : Progress) (value : String) (extra : Extra) :
    (rules config).walk limit p (.text value extra) = .unchanged p (.text value extra) := by
  cases limit <;> rfl

theorem setLeadText_cons {value : String} {node : Node} (h : node.text? = none)
    (rest : List Node) : setLeadText value (node :: rest) = node :: setLeadText value rest := by
  cases node with
  | text => cases h
  | _ => rfl

/-- The walk never looks at a lead text. -/
theorem walkAll_setLeadText (limit : Nat) (p : Progress) (value : String) (nodes : List Node) :
    (rules config).walkAll limit p (setLeadText value nodes) =
      ((rules config).walkAll limit p nodes).map (setLeadText value) := by
  induction nodes generalizing p with
  | nil => rfl
  | cons node rest ih =>
    cases hn : node.text? with
    | some text =>
      -- the lead text, at which the walk does nothing
      cases node with
      | text _ extra =>
        simp only [setLeadText, Editor.walkAll, Outcome.inOrder, walk_ofText]
        rfl
      | _ => cases hn
    | none =>
      have hw := (@text?_walk config limit p node).trans hn
      simp only [setLeadText_cons hn, Editor.walkAll, Outcome.inOrder]
      cases ((rules config).walk limit p node).stop with
      | none =>
        have := ih ((rules config).walk limit p node).state
        simp only [Editor.walkAll] at this
        simp only [this, Outcome.map_map]
        simp only [Outcome.map, Function.comp, setLeadText_cons hw]
      | some missing => simp only [Outcome.map, setLeadText_cons hw]

/-- A paragraph is walked as it is, whatever its lead text. -/
theorem walk_mapContent (limit : Nat) (p : Progress) (value : String) {node : Node}
    (h : node.hasTag "p" = true) :
    (rules config).walk limit p (mapContent (setLeadText value) node) =
      ((rules config).walk limit p node).map (mapContent (setLeadText value)) := by
  obtain ⟨properties, children, extra, rfl⟩ := Node.hasTag_iff.1 h
  cases limit with
  | zero => rfl
  | succ limit =>
    have hp : ∀ content, Inert ⟨"p", properties, content, extra⟩ := fun content =>
      inert_of_tag "p" rfl (by decide)
    have hl := @walk_of_inert config _ (hp (setLeadText value children)) limit p
    have hr := @walk_of_inert config _ (hp children) limit p
    simp only [Element.toNode] at hl hr
    rw [mapContent, hl, hr, walkAll_setLeadText]
    rfl

/-- An anchor behind the content is left alone. -/
theorem walkAll_concat (limit : Nat) (p : Progress) (id : String) (nodes : List Node) :
    (rules config).walkAll limit p (nodes ++ [permalinkAnchor config id]) =
      ((rules config).walkAll limit p nodes).map (· ++ [permalinkAnchor config id]) := by
  refine Outcome.inOrder_concat (fun p => ?_) p nodes
  cases limit with
  | zero => rfl
  | succ limit =>
    refine (walk_of_inert (inert_of_tag "a" rfl (by decide)) limit p).trans ?_
    cases limit <;> rfl

theorem walkAll_singleton (limit : Nat) (p : Progress) (node : Node) :
    (rules config).walkAll limit p [node] = ((rules config).walk limit p node).map ([·]) := by
  simp only [Editor.walkAll, Outcome.inOrder]
  cases h : ((rules config).walk limit p node).stop with
  | none => simp [Outcome.map, Outcome.unchanged, h]
  | some missing => simp [Outcome.map, h]

/-- A table is walked through its container. -/
theorem walk_tableContainer (limit : Nat) (p : Progress) (node : Node) :
    (rules config).walk (limit + 1) p (tableContainer config node) =
      ((rules config).walk limit p node).map (tableContainer config) := by
  refine (walk_of_inert (inert_of_tag "div" rfl (by decide)) limit p).trans ?_
  change ((rules config).walkAll limit p [node]).map _ = _
  rw [walkAll_singleton]
  rfl

/-- What the rules do to the content of an element may be done before or after it is walked. -/
theorem walkAll_restyle (limit : Nat) (p : Progress) (e : Element) :
    (rules config).walkAll limit p (restyle config e e.children) =
      ((rules config).walkAll limit p e.children).map (restyle config e) := by
  unfold restyle
  cases hl : calloutLead? e with
  | some lead =>
    obtain ⟨paragraph, lead⟩ := lead
    refine Outcome.inOrder_modify (fun node hi s => ?_) p
    exact walk_mapContent limit s _ (hasTag_of_calloutLead? hl hi)
  | none =>
    cases permalinkId? e with
    | some id => exact walkAll_concat limit p id e.children
    | none => rfl

/-! ### The recursion -/

/-- A table in its container; any other node as it is. -/
def contain (config : Config) (node : Node) : Node :=
  if isTable node then tableContainer config node else node

@[simp] theorem containTables_value (config : Config) (r : Root) :
    (containTables config r).value = { r with children := r.children.map (contain config) } := rfl

mutual

/-- The walk of a node with the rules, on the content that the node has before. -/
def sweep (config : Config) : Progress → Node → Outcome Progress MissingLeadText Node
  | p, .root children extra =>
    (sweepAll config (p.addTables (containTables config ⟨children, extra⟩)) children).map
      fun content => .root (content.map (contain config)) extra
  | p, .element tag properties children extra =>
    match fault? config ⟨tag, properties, children, extra⟩ with
    | some missing => ⟨p, .element tag properties children extra, some missing⟩
    | none =>
      (sweepAll config (p.addElement config ⟨tag, properties, children, extra⟩) children).map
        fun content => (restyled config ⟨tag, properties, children, extra⟩ content).toNode
  | p, .text value extra => .unchanged p (.text value extra)
  | p, .other kind value children extra => .unchanged p (.other kind value children extra)

/-- The walk of nodes in order. -/
def sweepAll (config : Config) : Progress → List Node → Outcome Progress MissingLeadText (List Node)
  | p, [] => .unchanged p []
  | p, node :: rest =>
    match (sweep config p node).stop with
    | none =>
      (sweepAll config (sweep config p node).state rest).map ((sweep config p node).value :: ·)
    | some missing =>
      ⟨(sweep config p node).state, (sweep config p node).value :: rest, some missing⟩

end

/-- The walk of a whole tree. -/
def sweepTree (config : Config) (p : Progress) (r : Root) : Outcome Progress MissingLeadText Root :=
  (sweepAll config (p.addTables (containTables config r)) r.children).map fun content =>
    ⟨content.map (contain config), r.extra⟩

/-! ### The walk changes no face -/

@[simp] theorem text?_mapContent (f : List Node → List Node) (node : Node) :
    (mapContent f node).text? = node.text? := by
  cases node <;> rfl

theorem leadText?_eq (nodes : List Node) :
    leadText? nodes = (nodes.map Node.text?).findSome? id := by
  rw [List.findSome?_map]
  rfl

/-- The rules change no lead text but that of the paragraph in a callout. -/
theorem leadText?_restyle (e : Element) (content : List Node) :
    leadText? (restyle config e content) = leadText? content := by
  unfold restyle
  cases calloutLead? e with
  | some lead =>
    have hm : ((content.modify lead.1 (mapContent (setLeadText (strippedLead lead.2)))).map
        Node.text?) = content.map Node.text? := by
      refine List.ext_getElem? fun i => ?_
      simp only [List.getElem?_map, List.getElem?_modify]
      cases content[i]? with
      | none => rfl
      | some node => by_cases h : lead.1 = i <;> simp [h, text?_mapContent]
    simp only [leadText?_eq, hm]
  | none =>
    cases permalinkId? e with
    | some id =>
      have ha : leadText? [permalinkAnchor config id] = none := rfl
      simp only [leadText?] at ha ⊢
      simp only [List.findSome?_append, ha, Option.or_none]
    | none => rfl

theorem text?_sweep (p : Progress) (node : Node) :
    (sweep config p node).value.text? = node.text? := by
  cases node with
  | element =>
    rw [sweep]
    split <;> rfl
  | _ => rw [sweep]; rfl

theorem map_text?_sweepAll (p : Progress) (nodes : List Node) :
    (sweepAll config p nodes).value.map Node.text? = nodes.map Node.text? := by
  induction nodes generalizing p with
  | nil => rw [sweepAll]; rfl
  | cons node rest ih =>
    rw [sweepAll]
    split
    next => simp [Outcome.map, text?_sweep, ih]
    next => simp [text?_sweep]

theorem face_restyled {e : Element} {content : List Node}
    (h : content.map Node.text? = e.children.map Node.text?) :
    (restyled config e content).toNode.face = e.toNode.face := by
  have hl : leadText? (restyle config e content) = leadText? e.children := by
    rw [leadText?_restyle, leadText?_eq, h, ← leadText?_eq]
  exact congrArg (Prod.mk (some e.tag)) hl

/-- What the rules read of a node in the content of another is the same before and after the walk. -/
theorem face_sweep (p : Progress) (node : Node) : (sweep config p node).value.face = node.face := by
  cases node with
  | element tag properties children extra =>
    rw [sweep]
    split
    next => rfl
    next =>
      exact @face_restyled config ⟨tag, properties, children, extra⟩ _ (map_text?_sweepAll _ children)
  | _ => rw [sweep]; rfl

theorem map_face_sweepAll (p : Progress) (nodes : List Node) :
    (sweepAll config p nodes).value.map Node.face = nodes.map Node.face := by
  induction nodes generalizing p with
  | nil => rw [sweepAll]; rfl
  | cons node rest ih =>
    rw [sweepAll]
    split
    next => simp [Outcome.map, face_sweep, ih]
    next => simp [face_sweep]

theorem isTable_eq_of_face {m n : Node} (h : m.face = n.face) : isTable m = isTable n := by
  simp only [isTable, Node.hasTag_eq, show m.tag? = n.tag? from congrArg Prod.fst h]

theorem contain_sweep (p : Progress) (node : Node) :
    contain config (sweep config p node).value =
      if isTable node then tableContainer config (sweep config p node).value
      else (sweep config p node).value := by
  rw [contain, isTable_eq_of_face (face_sweep p node)]

/-! ### The walk is the recursion -/

mutual

/-- **The walk on the tree that it changes is the recursion on the tree from before**, if its limit
is large enough: of two levels, the rules add at most one. -/
theorem walk_eq_sweep : ∀ (node : Node) (limit : Nat) (p : Progress), 2 * node.height ≤ limit →
    (rules config).walk limit p node = sweep config p node
  | .root children extra, limit, p, h => by
    obtain ⟨limit, rfl⟩ : ∃ l, limit = l + 1 := ⟨limit - 1, by simp only [Node.height] at h; omega⟩
    have hc := walkAll_contain children limit
      (p.addTables (containTables config ⟨children, extra⟩)) (by simp only [Node.height] at h; omega)
    rw [Editor.walk, sweep]
    simp only [rules, Outcome.andThen, Outcome.unchanged, containTables_value]
    change Outcome.map Root.toNode (Outcome.map _
      ((rules config).walkAll limit _ (children.map (contain config)))) = _
    rw [hc]
    rfl
  | .element tag properties children extra, limit, p, h => by
    obtain ⟨limit, rfl⟩ : ∃ l, limit = l + 1 := ⟨limit - 1, by simp only [Node.height] at h; omega⟩
    rw [Editor.walk, sweep, rules_element]
    cases fault? config ⟨tag, properties, children, extra⟩ with
    | some missing => rfl
    | none =>
      -- what a rule does to the content may as well be done behind the walk through it
      have hc := walkAll_eq_sweepAll children limit
        (p.addElement config ⟨tag, properties, children, extra⟩)
        (by simp only [Node.height] at h; omega)
      simp only [Outcome.andThen, Outcome.unchanged]
      change Outcome.map Element.toNode (Outcome.map _ ((rules config).walkAll limit _
        (restyle config ⟨tag, properties, children, extra⟩ children))) = _
      rw [walkAll_restyle limit _ ⟨tag, properties, children, extra⟩, hc]
      rfl
  | .text value extra, limit, p, _ => by
    rw [sweep]
    exact walk_ofText limit p value extra
  | .other kind value children extra, limit, p, _ => by
    rw [sweep]
    cases limit <;> rfl

/-- The same for the content of an element, which the walk meets as it is. -/
theorem walkAll_eq_sweepAll : ∀ (nodes : List Node) (limit : Nat) (p : Progress),
    2 * Node.heightAll nodes ≤ limit → (rules config).walkAll limit p nodes = sweepAll config p nodes
  | [], _, _, _ => by rw [sweepAll]; rfl
  | node :: rest, limit, p, h => by
    simp only [Node.heightAll] at h
    have hn := walk_eq_sweep node limit p (by omega)
    have hr := walkAll_eq_sweepAll rest limit (sweep config p node).state (by omega)
    rw [Editor.walkAll, Outcome.inOrder, sweepAll, hn]
    cases (sweep config p node).stop with
    | none => exact congrArg (Outcome.map _) hr
    | some missing => rfl

/-- The same for the content of a root, where the walk meets the tables in their containers. -/
theorem walkAll_contain : ∀ (nodes : List Node) (limit : Nat) (p : Progress),
    2 * Node.heightAll nodes + 1 ≤ limit →
      (rules config).walkAll limit p (nodes.map (contain config)) =
        (sweepAll config p nodes).map (List.map (contain config))
  | [], _, _, _ => by rw [sweepAll]; rfl
  | node :: rest, limit, p, h => by
    simp only [Node.heightAll] at h
    have hr := walkAll_contain rest limit (sweep config p node).state (by omega)
    have hn : (rules config).walk limit p (contain config node) =
        (sweep config p node).map (contain config) := by
      simp only [Outcome.map, contain_sweep]
      by_cases ht : isTable node = true
      · -- the container takes one level of the limit
        obtain ⟨below, rfl⟩ : ∃ l, limit = l + 1 := ⟨limit - 1, by omega⟩
        simp only [contain, ht, if_true]
        rw [walk_tableContainer, walk_eq_sweep node below p (by omega)]
        rfl
      · simp only [contain, ht]
        exact walk_eq_sweep node limit p (by omega)
    rw [List.map_cons, Editor.walkAll, Outcome.inOrder, sweepAll, hn]
    simp only [Outcome.map]
    cases (sweep config p node).stop with
    | none => simp only [Editor.walkAll] at hr; simp only [hr, Outcome.map, List.map_cons]
    | some missing => rfl

end

theorem two_mul_heightAll_lt_walkLimit (r : Root) :
    2 * Node.heightAll r.children < walkLimit r := by
  simp only [walkLimit, Root.toNode, Node.height]
  omega

/-- Whatever the limit is, if it is large enough, the rules go through the tree once. -/
theorem walkTree_eq_sweepTree_of_lt {limit : Nat} {r : Root}
    (h : 2 * Node.heightAll r.children < limit) (p : Progress) :
    (rules config).walkTree limit p r = sweepTree config p r := by
  have hc := @walkAll_contain config r.children limit
    (p.addTables (containTables config r)) h
  simp only [Editor.walkTree, rules, Outcome.andThen, Outcome.unchanged, containTables_value]
  change Outcome.map _ ((rules config).walkAll _ _ (r.children.map (contain config))) = _
  rw [hc]
  rfl

/-- A run of the rules goes through the tree once, with the limit that it sets itself. -/
theorem walkTree_eq_sweepTree (r : Root) (p : Progress) :
    (rules config).walkTree (walkLimit r) p r = sweepTree config p r :=
  walkTree_eq_sweepTree_of_lt (two_mul_heightAll_lt_walkLimit r) p

theorem run_root (config : Config) (r : Root) :
    (run config r).root = (sweepTree config .start r).value := by
  unfold run
  simp only [walkTree_eq_sweepTree]
  cases (sweepTree config .start r).stop <;> rfl

theorem run_tally (config : Config) (r : Root) :
    (run config r).tally = (sweepTree config .start r).state.tally := by
  unfold run
  simp only [walkTree_eq_sweepTree]
  cases (sweepTree config .start r).stop <;> rfl

theorem run_failure (config : Config) (r : Root) :
    (run config r).failure = (sweepTree config .start r).stop := by
  unfold run
  simp only [walkTree_eq_sweepTree]
  cases h : (sweepTree config .start r).stop <;> rfl

/-- Behind what the walk reports, a run that comes to its end adds a summary. -/
theorem run_report (config : Config) (r : Root) :
    (run config r).events = (sweepTree config .start r).state.events ++
      if (run config r).failure = none then [.finished (run config r).tally] else [] := by
  rw [run_failure, run_tally]
  unfold run
  simp only [walkTree_eq_sweepTree]
  cases (sweepTree config .start r).stop with
  | none => rfl
  | some missing => exact (List.append_nil _).symm

end Docs

end DocTree
