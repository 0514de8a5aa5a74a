import DocTree.Proofs.Docs.Frame
import DocTree.Proofs.Docs.Stopped
import DocTree.Proofs.Docs.Totals

/-!
# What the configured texts decide

Nothing but themselves.  Two runs on one tree, with configurations that agree on strict mode, leave
trees that differ in configured texts alone (`Twins`): in the class of a callout, a heading or a
container that the rules have treated, and in an anchor that they have added.  The configured texts may
look like markers, tags or identifiers; they stand in nodes that the walk goes into later, but it reads
none of them there.

`Twins` goes along the tree before, for that says which nodes the rules treat (`applied`).  What the
rules do to content keeps it: the lead text of a paragraph is set to the same in both trees
(`TwinsAll.setLeadText`), an anchor comes behind the content, and a container around a table.
-/

namespace DocTree

namespace Properties

/-- The maps have the same names in the same order, and under each the same value but for the names
given. -/
def AgreeBut (exempt : List String) (p q : Properties) : Prop :=
  p.names = q.names ∧ ∀ name, name ∉ exempt → p.get? name = q.get? name

theorem AgreeBut.refl (exempt : List String) (p : Properties) : AgreeBut exempt p p :=
  ⟨rfl, fun _ _ => rfl⟩

/-- Setting the property to one value or another keeps agreement but for that property. -/
theorem AgreeBut.insert {exempt : List String} {p q : Properties} (h : AgreeBut exempt p q)
    {name : String} (hname : name ∈ exempt) (v w : PropertyValue) :
    AgreeBut exempt (p.insert name v) (q.insert name w) := by
  refine ⟨?_, fun other hother => ?_⟩
  · rw [names_insert, names_insert, h.1]
  · have hne : name ≠ other := fun heq => hother (heq ▸ hname)
    rw [get?_insert, get?_insert, if_neg hne, if_neg hne, h.2 other hother]

/-- The map with nothing under its names. -/
def blank (p : Properties) : Properties where
  entries := p.entries.map fun entry => (entry.1, .null)
  nodup := by
    rw [List.map_map]
    exact p.nodup

theorem blank_congr {p q : Properties} (h : p.names = q.names) : p.blank = q.blank := by
  have hentries : ∀ p : Properties,
      p.entries.map (fun entry => (entry.1, PropertyValue.null)) = p.names.map (·, .null) :=
    fun p => by
      rw [names, List.map_map]
      rfl
  simp only [blank, hentries, h]

end Properties

namespace Node

mutual

/-- The node without what its properties and texts say: what remains are the kinds, the tags, the content
in order, the property names in order, and the extra fields, and all of the nodes of other kinds. -/
def shape : Node → Node
  | root children extra => .root (shapeAll children) extra
  | element tag properties children extra =>
    .element tag (properties.map Properties.blank) (shapeAll children) extra
  | text _ extra => .text "" extra
  | other kind value children extra => .other kind value children extra

/-- The same for nodes beside each other. -/
def shapeAll : List Node → List Node
  | [] => []
  | node :: rest => node.shape :: shapeAll rest

end

theorem shapeAll_eq_map (nodes : List Node) : shapeAll nodes = nodes.map shape := by
  induction nodes with
  | nil => rfl
  | cons node rest ih => rw [shapeAll, ih, List.map_cons]

end Node

namespace Docs

open Properties (AgreeBut)

/-- Anchors that the rules add, with different texts: the class, the label and the text that is shown
may differ. -/
inductive TwinAnchors : Node → Node → Prop
  | anchor {p q : Properties} {s t : String} (h : AgreeBut ["class", "aria-label"] p q) :
    TwinAnchors (.element "a" (some p) [.ofText s] .empty) (.element "a" (some q) [.ofText t] .empty)

mutual

/-- What runs with different texts leave of one node, if they apply the rules at the chosen ones of its
sites, of which the first has the given number.  The two nodes are the same, but for a class at a callout
or a heading that is chosen, and for an anchor in such a heading. -/
inductive Twins (chosen : Nat → Bool) : Nat → Node → Node → Node → Prop
  | root {number : Nat} {children cs ds : List Node} {extra : Extra}
    (h : TwinsAll chosen (chosen number) (number + 1) children cs ds) :
    Twins chosen number (.root children extra) (.root cs extra) (.root ds extra)
  | untouched {number : Nat} {tag : String} {properties : Option Properties}
    {children cs ds : List Node} {extra : Extra}
    (hnot : chosen number = false ∨ calloutLead? ⟨tag, properties, children, extra⟩ = none ∧
      permalinkId? ⟨tag, properties, children, extra⟩ = none)
    (h : TwinsAll chosen false (number + 1) children cs ds) :
    Twins chosen number (.element tag properties children extra) (.element tag properties cs extra)
      (.element tag properties ds extra)
  | callout {number : Nat} {tag : String} {properties : Option Properties}
    {children cs ds : List Node} {extra : Extra} {lead : Nat × String} {p q : Properties}
    (hchosen : chosen number = true)
    (hcallout : calloutLead? ⟨tag, properties, children, extra⟩ = some lead)
    (hclass : AgreeBut ["class"] p q) (h : TwinsAll chosen false (number + 1) children cs ds) :
    Twins chosen number (.element tag properties children extra) (.element tag (some p) cs extra)
      (.element tag (some q) ds extra)
  | heading {number : Nat} {tag : String} {properties : Option Properties}
    {children cs ds : List Node} {extra : Extra} {id : String} {p q : Properties} {a b : Node}
    (hchosen : chosen number = true)
    (hheading : permalinkId? ⟨tag, properties, children, extra⟩ = some id)
    (hclass : AgreeBut ["class"] p q) (h : TwinsAll chosen false (number + 1) children cs ds)
    (hanchor : TwinAnchors a b) :
    Twins chosen number (.element tag properties children extra)
      (.element tag (some p) (cs ++ [a]) extra) (.element tag (some q) (ds ++ [b]) extra)
  | text {number : Nat} {before after : String} {extra : Extra} :
    Twins chosen number (.text before extra) (.text after extra) (.text after extra)
  | other {number : Nat} {kind : String} {value : Option String} {children : Option (List Node)}
    {extra : Extra} : Twins chosen number (.other kind value children extra)
      (.other kind value children extra) (.other kind value children extra)

/-- The same for nodes beside each other, which are numbered on.  Under a root that is chosen each table
has a container, which may differ in its class. -/
inductive TwinsAll (chosen : Nat → Bool) : Bool → Nat → List Node → List Node → List Node → Prop
  | nil {wrap : Bool} {number : Nat} : TwinsAll chosen wrap number [] [] []
  | node {wrap : Bool} {number : Nat} {node m n : Node} {rest ms ns : List Node}
    (hnot : wrap = false ∨ isTable node = false) (h : Twins chosen number node m n)
    (hrest : TwinsAll chosen wrap (number + (sites node).length) rest ms ns) :
    TwinsAll chosen wrap number (node :: rest) (m :: ms) (n :: ns)
  | table {number : Nat} {node m n : Node} {p q : Properties} {rest ms ns : List Node}
    (htable : isTable node = true) (hclass : AgreeBut ["class"] p q) (h : Twins chosen number node m n)
    (hrest : TwinsAll chosen true (number + (sites node).length) rest ms ns) :
    TwinsAll chosen true number (node :: rest) (.element "div" (some p) [m] .empty :: ms)
      (.element "div" (some q) [n] .empty :: ns)

end

variable {chosen : Nat → Bool}

/-! ### What the rules do keeps it -/

theorem Twins.text? {number : Nat} {node m n : Node} (h : Twins chosen number node m n) :
    m.text? = none ∧ n.text? = none ∨ ∃ value extra, node.text? ≠ none ∧
      m = .text value extra ∧ n = .text value extra := by
  cases h with
  | text => exact .inr ⟨_, _, nofun, rfl, rfl⟩
  | _ => exact .inl ⟨rfl, rfl⟩

theorem Twins.isTable {number : Nat} {node m n : Node} (h : Twins chosen number node m n) :
    isTable m = isTable node ∧ isTable n = isTable node := by
  cases h <;> exact ⟨rfl, rfl⟩

/-- The lead text is set to the same in both. -/
theorem TwinsAll.setLeadText (value : String) : ∀ {number : Nat} {nodes ms ns : List Node},
    TwinsAll chosen false number nodes ms ns →
      TwinsAll chosen false number nodes (Docs.setLeadText value ms) (Docs.setLeadText value ns)
  | _, _, _, _, .nil => .nil
  | _, _, _, _, .node hnot h hrest => by
    rcases h.text? with ⟨hm, hn⟩ | ⟨text, extra, -, rfl, rfl⟩
    · rw [setLeadText_cons hm, setLeadText_cons hn]
      exact .node hnot h (TwinsAll.setLeadText value hrest)
    · cases h
      exact .node hnot .text hrest

/-- The lead text of a paragraph is set to the same in both. -/
theorem Twins.mapContent (value : String) {number : Nat} {node m n : Node}
    (h : Twins chosen number node m n) (hp : node.hasTag "p" = true) :
    Twins chosen number node (Docs.mapContent (Docs.setLeadText value) m)
      (Docs.mapContent (Docs.setLeadText value) n) := by
  have hinert : ∀ properties children extra, Inert ⟨"p", properties, children, extra⟩ :=
    fun _ _ _ => inert_of_tag "p" rfl (by decide)
  obtain ⟨properties, children, extra, rfl⟩ := Node.hasTag_iff.1 hp
  cases h with
  | untouched hnot h => exact .untouched hnot (h.setLeadText value)
  | callout hchosen hcallout hclass h => exact .callout hchosen hcallout hclass (h.setLeadText value)
  | heading _ hheading =>
    rw [permalinkId?_of_inert (hinert properties children extra)] at hheading
    cases hheading

theorem TwinsAll.modify (value : String) : ∀ {number : Nat} {nodes ms ns : List Node} (i : Nat),
    TwinsAll chosen false number nodes ms ns →
      (∀ node, nodes[i]? = some node → node.hasTag "p" = true) →
        TwinsAll chosen false number nodes
          (ms.modify i (Docs.mapContent (Docs.setLeadText value)))
          (ns.modify i (Docs.mapContent (Docs.setLeadText value)))
  | _, _, _, _, i, .nil, _ => by
    cases i <;> exact .nil
  | _, _, _, _, 0, .node hnot h hrest, hp => .node hnot (h.mapContent value (hp _ rfl)) hrest
  | _, _, _, _, i + 1, .node hnot h hrest, hp =>
    .node hnot h (TwinsAll.modify value i hrest fun node hnode => hp node (by simpa using hnode))

/-- Tables get their containers in both. -/
theorem TwinsAll.contain (config config' : Config) : ∀ {number : Nat} {nodes ms ns : List Node},
    TwinsAll chosen false number nodes ms ns →
      TwinsAll chosen true number nodes (ms.map (Docs.contain config)) (ns.map (Docs.contain config'))
  | _, _, _, _, .nil => .nil
  | _, before :: _, _, _, .node _ h hrest => by
    obtain ⟨hm, hn⟩ := h.isTable
    rw [List.map_cons, List.map_cons, Docs.contain, Docs.contain, hm, hn]
    by_cases htable : Docs.isTable before = true
    · rw [if_pos htable, if_pos htable]
      refine .table htable ?_ h (TwinsAll.contain config config' hrest)
      exact (AgreeBut.refl ["class"] .empty).insert (by decide) _ _
    · rw [if_neg htable, if_neg htable]
      exact .node (.inr (Bool.not_eq_true _ ▸ htable)) h (TwinsAll.contain config config' hrest)

theorem twinAnchors_permalinkAnchor (config config' : Config) (id : String) :
    TwinAnchors (permalinkAnchor config id) (permalinkAnchor config' id) := by
  refine .anchor ?_
  exact ((AgreeBut.refl ["class", "aria-label"] _).insert (by decide) _ _).insert (by decide) _ _

/-! ### Rules at chosen sites change no face -/

section Faces

variable {config : Config}

theorem text?_applied (node : Node) (number : Nat) :
    (applied config chosen number node).text? = node.text? := by
  cases node <;> rw [applied]
  all_goals try split
  all_goals rfl

theorem map_text?_appliedAll (nodes : List Node) (number : Nat) :
    (appliedAll config chosen number nodes).map Node.text? = nodes.map Node.text? := by
  induction nodes generalizing number with
  | nil => rw [appliedAll]
  | cons node rest ih => rw [appliedAll, List.map_cons, List.map_cons, text?_applied, ih]

mutual

theorem face_applied : ∀ (node : Node) (number : Nat),
    (applied config.lenient chosen number node).face = node.face
  | .root children extra, number => by
    rw [applied]
    split <;> rfl
  | .element tag properties children extra, number => by
    have htexts := @map_text?_appliedAll chosen config.lenient children (number + 1)
    have hfaces := map_face_appliedAll children (number + 1)
    rw [applied]
    split
    · rw [@ruled_content config ⟨tag, properties, children, extra⟩ _ hfaces]
      exact @face_restyled config ⟨tag, properties, children, extra⟩ _ htexts
    · exact congrArg (Prod.mk (some tag)) (by
        change leadText? _ = leadText? children
        rw [leadText?_eq, htexts, ← leadText?_eq])
  | .text .., _ => by rw [applied]
  | .other .., _ => by rw [applied]

theorem map_face_appliedAll : ∀ (nodes : List Node) (number : Nat),
    (appliedAll config.lenient chosen number nodes).map Node.face = nodes.map Node.face
  | [], _ => by rw [appliedAll]
  | node :: rest, number => by
    rw [appliedAll, List.map_cons, List.map_cons, face_applied node, map_face_appliedAll rest]

end

end Faces

/-! ### Runs with different texts -/

/-- What the rules make of an element with twin contents. -/
theorem twins_restyled (config config' : Config) {number : Nat} {e : Element} {cs ds : List Node}
    (hchosen : chosen number = true) (h : TwinsAll chosen false (number + 1) e.children cs ds) :
    Twins chosen number e.toNode (restyled config e cs).toNode (restyled config' e ds).toNode := by
  have hclass : ∀ v w, AgreeBut ["class"] (e.propertyMap.insert "class" v)
      (e.propertyMap.insert "class" w) := (AgreeBut.refl _ _).insert List.mem_cons_self
  unfold restyled reclass restyle
  cases hcallout : calloutLead? e with
  | some lead =>
    refine .callout hchosen hcallout (hclass _ _) (h.modify _ lead.1 fun node hnode => ?_)
    exact hasTag_of_calloutLead? hcallout hnode
  | none =>
    cases hheading : permalinkId? e with
    | some id =>
      exact .heading hchosen hheading (hclass _ _) h (twinAnchors_permalinkAnchor config config' id)
    | none => exact .untouched (.inr ⟨hcallout, hheading⟩) h

mutual

theorem twins_applied (config config' : Config) : ∀ (node : Node) (number : Nat),
    Twins chosen number node (applied config.lenient chosen number node)
      (applied config'.lenient chosen number node)
  | .root children extra, number => by
    have hbelow := twinsAll_applied config config' children (number + 1)
    rw [applied, applied]
    cases hchosen : chosen number with
    | true =>
      rw [if_pos rfl, if_pos rfl, containTables_value, containTables_value]
      exact .root (hchosen ▸ hbelow.contain config.lenient config'.lenient)
    | false => exact .root (hchosen ▸ hbelow)
  | .element tag properties children extra, number => by
    have hbelow := twinsAll_applied config config' children (number + 1)
    rw [applied, applied]
    cases hchosen : chosen number with
    | true =>
      -- both rules read of the content what neither run has changed
      rw [if_pos rfl, if_pos rfl,
        @ruled_content config ⟨tag, properties, children, extra⟩ _ (map_face_appliedAll children _),
        @ruled_content config' ⟨tag, properties, children, extra⟩ _ (map_face_appliedAll children _)]
      exact @twins_restyled chosen config config' number ⟨tag, properties, children, extra⟩ _ _
        hchosen hbelow
    | false => exact .untouched (.inl hchosen) hbelow
  | .text .., _ => by
    rw [applied, applied]
    exact .text
  | .other .., _ => by
    rw [applied, applied]
    exact .other

theorem twinsAll_applied (config config' : Config) : ∀ (nodes : List Node) (number : Nat),
    TwinsAll chosen false number nodes (appliedAll config.lenient chosen number nodes)
      (appliedAll config'.lenient chosen number nodes)
  | [], _ => by
    rw [appliedAll, appliedAll]
    exact .nil
  | node :: rest, number => by
    rw [appliedAll, appliedAll]
    exact .node (.inl rfl) (twins_applied config config' node number)
      (twinsAll_applied config config' rest _)

end

/-! ### Shapes -/

theorem AgreeBut.blank {exempt : List String} {p q : Properties} (h : AgreeBut exempt p q) :
    (some p).map Properties.blank = (some q).map Properties.blank :=
  congrArg some (Properties.blank_congr h.1)

theorem TwinAnchors.shape_eq {a b : Node} (h : TwinAnchors a b) : a.shape = b.shape := by
  cases h with
  | anchor h => rw [Node.shape, Node.shape, AgreeBut.blank h]; rfl

mutual

theorem Twins.shape_eq : ∀ {number : Nat} {node m n : Node}, Twins chosen number node m n →
    m.shape = n.shape
  | _, _, _, _, .root h => by rw [Node.shape, Node.shape, h.shape_eq]
  | _, _, _, _, .untouched _ h => by rw [Node.shape, Node.shape, h.shape_eq]
  | _, _, _, _, .callout _ _ hclass h => by
    rw [Node.shape, Node.shape, h.shape_eq, AgreeBut.blank hclass]
  | _, _, _, _, .heading _ _ hclass h hanchor => by
    have hbelow := h.shape_eq
    rw [Node.shapeAll_eq_map, Node.shapeAll_eq_map] at hbelow
    rw [Node.shape, Node.shape, Node.shapeAll_eq_map, Node.shapeAll_eq_map, List.map_append,
      List.map_append, hbelow, AgreeBut.blank hclass, List.map_singleton, List.map_singleton,
      hanchor.shape_eq]
  | _, _, _, _, .text => rfl
  | _, _, _, _, .other => rfl

theorem TwinsAll.shape_eq : ∀ {wrap : Bool} {number : Nat} {nodes ms ns : List Node},
    TwinsAll chosen wrap number nodes ms ns → Node.shapeAll ms = Node.shapeAll ns
  | _, _, _, _, _, .nil => rfl
  | _, _, _, _, _, .node _ h hrest => by
    rw [Node.shapeAll, Node.shapeAll, h.shape_eq, hrest.shape_eq]
  | _, _, _, _, _, .table _ hclass h hrest => by
    simp only [Node.shapeAll, Node.shape, h.shape_eq, hrest.shape_eq, AgreeBut.blank hclass]

end

/-! ### Runs -/

theorem fault?_congr {config config' : Config}
    (h : config.strictCallouts = config'.strictCallouts) (s : Site) :
    s.fault? config = s.fault? config' := by
  cases s with
  | root r => rfl
  | element e => simp only [Site.fault?, fault?, h]

theorem faultless_congr {config config' : Config}
    (h : config.strictCallouts = config'.strictCallouts) (list : List Site) :
    faultless config list = faultless config' list := by
  have hfaulty : Site.faulty config = Site.faulty config' := funext fun s => by
    rw [Site.faulty, Site.faulty, fault?_congr h]
  rw [faultless, faultless, hfaulty]

/-- **The configured texts never decide what is rewritten.**  With the same strict mode two runs on one
tree end with the same counts, or both are stopped at the same paragraph.  The trees that they leave have
the same shape, and every value and text is the same in both, except for the class of the callouts, the
headings and the table containers up to the stop, and for the class, the label and the text of the anchors
added to those headings. -/
theorem run_twins (config config' : Config)
    (h : config.strictCallouts = config'.strictCallouts) (r : Root) :
    ((∃ tally, (run config r).failure = none ∧ (run config' r).failure = none ∧
        (run config r).tally = tally ∧ (run config' r).tally = tally) ∨
      ∃ missing, (run config r).failure = some missing ∧ (run config' r).failure = some missing) ∧
    (run config r).root.toNode.shape = (run config' r).root.toNode.shape ∧
    Twins (· < faultless config (sites r.toNode)) 0 r.toNode (run config r).root.toNode
      (run config' r).root.toNode := by
  have htwins : Twins (· < faultless config (sites r.toNode)) 0 r.toNode (run config r).root.toNode
      (run config' r).root.toNode := by
    rw [run_root_eq_applied, run_root_eq_applied, ← faultless_congr h]
    exact twins_applied config config' r.toNode 0
  have hfailure : (run config r).failure = (run config' r).failure := by
    rw [run_failure_eq, run_failure_eq, funext (fault?_congr h)]
  refine ⟨?_, htwins.shape_eq, htwins⟩
  cases hcase : (run config r).failure with
  | none =>
    have hcase' := hfailure.symm.trans hcase
    exact .inl ⟨_, rfl, hcase', run_tally_eq_total hcase, run_tally_eq_total hcase'⟩
  | some missing => exact .inr ⟨missing, rfl, hfailure.symm.trans hcase⟩

/-- Texts that look like markers, tags and identifiers. -/
def sampleOdd : Config where
  headingClass := "(warn)"
  permalinkClass := "blockquote"
  permalinkLabel := "id"
  permalinkText := "(red)"
  calloutBaseClass := "bq-warn h1"
  tableWrapperClass := "table"

/-- A heading with an identifier in a callout, and a table. -/
def sampleArticle : Root where
  children :=
    [.element "blockquote" (some .empty)
        [.element "p" none [.ofText "(red) x"] .empty,
          .element "h1" (some (Properties.empty.insert "id" (.string "top"))) [] .empty] .empty,
      .element "table" none [] .empty]
  extra := .empty

/-- Both runs count one heading, one callout and one table. -/
theorem run_twins_sampleArticle :
    ({} : Config).strictCallouts = sampleOdd.strictCallouts ∧
      (run {} sampleArticle).tally = ⟨1, 1, 1⟩ ∧ (run sampleOdd sampleArticle).tally = ⟨1, 1, 1⟩ ∧
      (run {} sampleArticle).root.toNode.shape = (run sampleOdd sampleArticle).root.toNode.shape ∧
      Twins (· < 5) 0 sampleArticle.toNode (run {} sampleArticle).root.toNode
        (run sampleOdd sampleArticle).root.toNode := by
  have hstrict : ({} : Config).strictCallouts = sampleOdd.strictCallouts := rfl
  have hfirst : (run {} sampleArticle).tally = ⟨1, 1, 1⟩ := by decide
  have hsites : faultless {} (sites sampleArticle.toNode) = 5 := by decide
  obtain ⟨hends | hstops, hshape, htwins⟩ := run_twins {} sampleOdd hstrict sampleArticle
  · obtain ⟨tally, -, -, htally, htally'⟩ := hends
    exact ⟨hstrict, hfirst, htally'.trans (htally.symm.trans hfirst), hshape, hsites ▸ htwins⟩
  · obtain ⟨missing, hfailure, -⟩ := hstops
    cases hfailure

end Docs

end DocTree
