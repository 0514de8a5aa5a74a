import DocTree.Proofs.Docs.Rewritten

/-!
# What a run keeps

A run adds nodes and writes two values; all else of a tree it keeps.  To say so, the tree before and
the tree after are walked in parallel:

* `trim?` takes out of the tree after a run what the rules add by the tree before it: the last node
  in every heading with a permalink, and the containers of the tables under a root;
* `Kept` says that what remains is the tree before, node for node, but for the class of a callout or
  heading and the lead text of a callout.

`run_keeps` is the main statement.  Its induction goes by the *place* of a node (`Place`): the rules
reach two levels below a callout, so what may change at a node is decided above it.
-/

namespace DocTree

namespace Properties

@[simp] theorem names_insert (p : Properties) (name : String) (value : PropertyValue) :
    (p.insert name value).names = if name ∈ p.names then p.names else p.names ++ [name] := by
  have h : ∀ entries : List (String × PropertyValue), (put name value entries).map (·.1) =
      if name ∈ entries.map (·.1) then entries.map (·.1) else entries.map (·.1) ++ [name] := by
    intro entries
    induction entries with
    | nil => rfl
    | cons head rest ih =>
      obtain ⟨n, v⟩ := head
      simp only [put]
      by_cases hn : n = name
      · simp [hn]
      · have hne : name ≠ n := fun h => hn h.symm
        simp only [hn, if_false, List.map_cons, ih, List.mem_cons, hne, false_or]
        split <;> rfl
  exact h p.entries

end Properties

namespace Docs

/-! ### Taking out what the rules add -/

/-- The node in a table's container. -/
def contained? : Node → Option Node
  | .element "div" _ [table] _ => some table
  | _ => none

/-- The content of a root without the containers of the tables that it had before. -/
def uncontain? : List Node → List Node → Option (List Node)
  | [], [] => some []
  | before :: cs, after :: ds => do
    let node ← if isTable before then contained? after else some after
    return node :: (← uncontain? cs ds)
  | _, _ => none

/-- The content of an element without the node at its end, if it was a heading with a permalink. -/
def unlink? (e : Element) (content : List Node) : Option (List Node) :=
  if (permalinkId? e).isNone then some content
  else if content.isEmpty then none
  else some content.dropLast

mutual

/-- A node after a run without what the rules have added to the node before it; nothing, if that is
not to be found. -/
def trim? : Node → Node → Option Node
  | .root cs _, .root ds extra => do
    return .root (← trimAll? cs (← uncontain? cs ds)) extra
  | .element t p cs x, .element tag properties ds extra => do
    return .element tag properties (← trimAll? cs (← unlink? ⟨t, p, cs, x⟩ ds)) extra
  | .text .., .text value extra => some (.text value extra)
  | .other .., .other kind value children extra => some (.other kind value children extra)
  | _, _ => none

/-- The same for nodes that stand beside each other. -/
def trimAll? : List Node → List Node → Option (List Node)
  | [], [] => some []
  | before :: cs, after :: ds => do return (← trim? before after) :: (← trimAll? cs ds)
  | _, _ => none

end

/-! ### Being kept -/

/-- Where a node stands to the callouts above it. -/
inductive Place where
  | plain
  /-- The node is the paragraph of a callout. -/
  | paragraph
  /-- The node is the lead text of a callout. -/
  | lead
  deriving DecidableEq

/-- The place of a node in the content of an element, by the place of that. -/
def Place.below (place : Place) (e : Element) (i : Nat) : Place :=
  if place = .paragraph ∧ e.children.findIdx? (·.text?.isSome) = some i then .lead
  else if (calloutLead? e).map (·.1) = some i then .paragraph
  else .plain

/-- The properties are those of the element before, but for the class of an element to which a rule
applies: that keeps its place, or comes last if it is new. -/
def KeptProperties (e : Element) (after : Option Properties) : Prop :=
  if (calloutLead? e).isSome ∨ (permalinkId? e).isSome then
    ∃ p q, e.properties = some p ∧ after = some q ∧
      q.names = (if "class" ∈ p.names then p.names else p.names ++ ["class"]) ∧
      ∀ name, name ≠ "class" → q.get? name = p.get? name
  else after = e.properties

mutual

/-- The second node is the first one, but for classes that a rule wrote and lead texts. -/
def Kept : Place → Node → Node → Prop
  | _, .root cs x, after => ∃ ds, after = .root ds x ∧ KeptAll (fun _ => .plain) cs ds
  | place, .element tag p cs x, after =>
    ∃ q ds, after = .element tag q ds x ∧ KeptProperties ⟨tag, p, cs, x⟩ q ∧
      KeptAll (place.below ⟨tag, p, cs, x⟩) cs ds
  | place, .text value x, after => ∃ w, after = .text w x ∧ (place ≠ .lead → w = value)
  | _, .other kind value cs x, after => after = .other kind value cs x

/-- The same for nodes that stand beside each other, with the place of each. -/
def KeptAll : (Nat → Place) → List Node → List Node → Prop
  | _, [], after => after = []
  | places, node :: cs, after =>
    ∃ d ds, after = d :: ds ∧ Kept (places 0) node d ∧ KeptAll (fun i => places (i + 1)) cs ds

end

mutual

/-- The nodes of two trees that correspond to each other, with their places, through roots and
elements and in document order. -/
def pairs : Place → Node → Node → List (Place × Node × Node)
  | place, .root cs x, after =>
    (place, .root cs x, after) :: match after with
      | .root ds _ => pairsAll (fun _ => .plain) cs ds
      | _ => []
  | place, .element tag p cs x, after =>
    (place, .element tag p cs x, after) :: match after with
      | .element _ _ ds _ => pairsAll (place.below ⟨tag, p, cs, x⟩) cs ds
      | _ => []
  | place, .text value x, after => [(place, .text value x, after)]
  | place, .other kind value cs x, after => [(place, .other kind value cs x, after)]

/-- The same for nodes that stand beside each other. -/
def pairsAll : (Nat → Place) → List Node → List Node → List (Place × Node × Node)
  | places, node :: cs, d :: ds => pairs (places 0) node d ++ pairsAll (fun i => places (i + 1)) cs ds
  | _, _, _ => []

end

mutual

theorem kept_of_mem_pairs : ∀ (before : Node) (after : Node) (place : Place), Kept place before after →
    ∀ {at_ : Place} {m n : Node}, (at_, m, n) ∈ pairs place before after → Kept at_ m n
  -- the pair is that of the two nodes themselves, or one of their content
  | .root cs x, after, place, h, at_, m, n, hmem => by
    have hk := h
    rw [Kept] at h
    obtain ⟨ds, rfl, hds⟩ := h
    rw [pairs, List.mem_cons] at hmem
    rcases hmem with heq | hmem
    · cases heq; exact hk
    · exact kept_of_mem_pairsAll cs ds _ hds hmem
  | .element tag p cs x, after, place, h, at_, m, n, hmem => by
    have hk := h
    rw [Kept] at h
    obtain ⟨q, ds, rfl, -, hds⟩ := h
    rw [pairs, List.mem_cons] at hmem
    rcases hmem with heq | hmem
    · cases heq; exact hk
    · exact kept_of_mem_pairsAll cs ds _ hds hmem
  | .text value x, after, place, h, at_, m, n, hmem => by
    rw [pairs, List.mem_singleton] at hmem
    cases hmem
    exact h
  | .other kind value cs x, after, place, h, at_, m, n, hmem => by
    rw [pairs, List.mem_singleton] at hmem
    cases hmem
    exact h

theorem kept_of_mem_pairsAll : ∀ (before after : List Node) (places : Nat → Place),
    KeptAll places before after →
      ∀ {at_ : Place} {m n : Node}, (at_, m, n) ∈ pairsAll places before after → Kept at_ m n
  | [], after, _, _, _, _, _, hmem => by
    rw [pairsAll] at hmem
    · cases hmem
    · exact fun _ _ _ _ h => nomatch h
  | node :: cs, after, places, h, at_, m, n, hmem => by
    rw [KeptAll] at h
    obtain ⟨d, ds, rfl, hd, hds⟩ := h
    rw [pairsAll, List.mem_append] at hmem
    rcases hmem with hmem | hmem
    · exact kept_of_mem_pairs node d _ hd hmem
    · exact kept_of_mem_pairsAll cs ds _ hds hmem

end

/-! ### What a run leaves is kept -/

variable {config : Config}

/-- What a run leaves of a node at a place. -/
def Left (config : Config) : Place → Node → Node → Prop
  | .plain, node, after => after = rewritten config node
  | .paragraph, node, after =>
    node.hasTag "p" = true ∧ ∃ lead, after = mapContent (setLeadText lead) (rewritten config node)
  | .lead, node, after => ∃ value extra lead, node = .text value extra ∧ after = .text lead extra

/-- What a run leaves of nodes that stand beside each other. -/
def LeftAll (config : Config) : (Nat → Place) → List Node → List Node → Prop
  | _, [], after => after = []
  | places, node :: cs, after =>
    ∃ d ds, after = d :: ds ∧ Left config (places 0) node d ∧
      LeftAll config (fun i => places (i + 1)) cs ds

theorem leftAll_rewrittenAll (cs : List Node) :
    LeftAll config (fun _ => .plain) cs (rewrittenAll config cs) := by
  induction cs with
  | nil => rfl
  | cons node rest ih => exact ⟨_, _, rfl, rfl, ih⟩

/-- The callout rule changes the content at one place, a paragraph. -/
theorem leftAll_modify {cs : List Node} {i : Nat} (lead : String)
    (h : ∀ node, cs[i]? = some node → node.hasTag "p" = true) :
    LeftAll config (fun j => if some i = some j then .paragraph else .plain) cs
      ((rewrittenAll config cs).modify i (mapContent (setLeadText lead))) := by
  induction cs generalizing i with
  | nil => cases i <;> rfl
  | cons node rest ih =>
    rw [rewrittenAll]
    cases i with
    | zero =>
      refine ⟨_, _, rfl, ⟨h node rfl, lead, rfl⟩, ?_⟩
      simpa using @leftAll_rewrittenAll config rest
    | succ i =>
      rw [List.modify_succ_cons]
      refine ⟨_, _, rfl, rfl, ?_⟩
      simpa using ih fun node hn => h node (by simpa using hn)

/-- In a paragraph, the first text alone is the lead text. -/
theorem leftAll_setLeadText (lead : String) (cs : List Node) :
    LeftAll config
      (fun j => if cs.findIdx? (·.text?.isSome) = some j then .lead else .plain) cs
      (setLeadText lead (rewrittenAll config cs)) := by
  induction cs with
  | nil => rfl
  | cons node rest ih =>
    rw [rewrittenAll]
    cases hn : node.text? with
    | some text =>
      -- this is the first text, so those behind it stay
      cases node with
      | text value extra =>
        refine ⟨_, _, rfl, ⟨value, extra, lead, rfl, rfl⟩, ?_⟩
        simpa [List.findIdx?_cons, Node.text?] using @leftAll_rewrittenAll config rest
      | _ => cases hn
    | none =>
      rw [setLeadText_cons ((text?_rewritten node).trans hn)]
      refine ⟨_, _, rfl, ?_, ?_⟩
      · simp [List.findIdx?_cons, hn, Left]
      · simpa [List.findIdx?_cons, hn] using ih

theorem uncontain?_rewritten (cs : List Node) :
    uncontain? cs ((rewrittenAll config cs).map (contain config)) =
      some (rewrittenAll config cs) := by
  induction cs with
  | nil => rfl
  | cons node rest ih =>
    rw [rewrittenAll, List.map_cons, uncontain?, ih, contain, isTable_rewritten]
    by_cases ht : isTable node = true
    · simp only [ht, if_true]
      rfl
    · simp only [ht]
      rfl

/-- Without the anchor in a heading, a run leaves its content as a run leaves every node of it. -/
theorem unlink?_restyle (e : Element) : ∃ content,
    unlink? e (restyle config e (rewrittenAll config e.children)) = some content ∧
      LeftAll config (Place.plain.below e) e.children content := by
  have hplace : Place.plain.below e = fun i =>
      if (calloutLead? e).map (·.1) = some i then .paragraph else .plain := by
    funext i
    simp [Place.below]
  rw [hplace]
  unfold restyle unlink?
  cases hl : calloutLead? e with
  | some lead =>
    simp only [permalinkId?_of_calloutLead? hl]
    exact ⟨_, rfl, leftAll_modify _ fun node hn => hasTag_of_calloutLead? hl hn⟩
  | none =>
    refine ⟨rewrittenAll config e.children, ?_, leftAll_rewrittenAll e.children⟩
    cases permalinkId? e with
    | none => rfl
    | some id => simp

theorem keptProperties_insert {e : Element} (hp : e.properties.isSome) (value : PropertyValue) :
    ∃ p q, e.properties = some p ∧ some (e.propertyMap.insert "class" value) = some q ∧
      q.names = (if "class" ∈ p.names then p.names else p.names ++ ["class"]) ∧
      ∀ name, name ≠ "class" → q.get? name = p.get? name := by
  obtain ⟨p, hp⟩ := Option.isSome_iff_exists.1 hp
  refine ⟨p, _, hp, rfl, ?_, fun name hne => ?_⟩
  · simp [Element.propertyMap, hp, Properties.names_insert]
  · simp [Element.propertyMap, hp, Properties.get?_insert, hne.symm]

theorem keptProperties_reclass (e : Element) : KeptProperties e (reclass config e) := by
  unfold KeptProperties reclass
  cases hl : calloutLead? e with
  | some lead =>
    rw [if_pos (by simp)]
    exact keptProperties_insert (isSome_properties_of_calloutLead? hl) _
  | none =>
    cases hid : permalinkId? e with
    | some id =>
      rw [if_pos (by simp)]
      exact keptProperties_insert (isSome_properties_of_permalinkId? hid) _
    | none => rw [if_neg (by simp)]

/-- The second node without what the rules add to the first one is the first one, but for classes and
lead texts. -/
def TrimsTo (place : Place) (before after : Node) : Prop :=
  ∃ remains, trim? before after = some remains ∧ Kept place before remains

/-- The same for nodes that stand beside each other. -/
def AllTrimTo (places : Nat → Place) (before after : List Node) : Prop :=
  ∃ remains, trimAll? before after = some remains ∧ KeptAll places before remains

theorem trimsTo_root {cs : List Node} (x : Extra)
    (h : AllTrimTo (fun _ => .plain) cs (rewrittenAll config cs)) :
    TrimsTo .plain (.root cs x) (rewritten config (.root cs x)) := by
  obtain ⟨ds, hds, hk⟩ := h
  refine ⟨.root ds x, ?_, by rw [Kept]; exact ⟨ds, rfl, hk⟩⟩
  rw [rewritten, trim?, uncontain?_rewritten]
  simp [hds]

theorem trimsTo_element {e : Element} {content : List Node}
    (hu : unlink? e (restyle config e (rewrittenAll config e.children)) = some content)
    (h : AllTrimTo (Place.plain.below e) e.children content) :
    TrimsTo .plain e.toNode (rewritten config e.toNode) := by
  obtain ⟨ds, hds, hk⟩ := h
  refine ⟨.element e.tag (reclass config e) ds e.extra, ?_, ?_⟩
  · rw [Element.toNode, rewritten, restyled, Element.toNode, trim?, hu]
    simp [hds]
  · rw [Element.toNode, Kept]
    exact ⟨_, _, rfl, keptProperties_reclass _, hk⟩

/-- Of a callout's paragraph the lead text alone is another one. -/
theorem trimsTo_paragraph (p : Option Properties) {cs : List Node} (x : Extra) (lead : String)
    (h : AllTrimTo (fun i => if cs.findIdx? (·.text?.isSome) = some i then .lead else .plain) cs
      (setLeadText lead (rewrittenAll config cs))) :
    TrimsTo .paragraph (.element "p" p cs x)
      (mapContent (setLeadText lead) (rewritten config (.element "p" p cs x))) := by
  have hin : Inert ⟨"p", p, cs, x⟩ := by simp [Inert, permalinkTags]
  have hplace : Place.paragraph.below ⟨"p", p, cs, x⟩ = fun i =>
      if cs.findIdx? (·.text?.isSome) = some i then .lead else .plain := by
    funext i
    simp [Place.below, calloutLead?_of_inert hin]
  obtain ⟨ds, hds, hk⟩ := h
  refine ⟨.element "p" p ds x, ?_, ?_⟩
  · rw [rewritten, restyled_of_inert hin, Element.toNode, mapContent, trim?, unlink?,
      permalinkId?_of_inert hin]
    simp [hds]
  · rw [Kept, hplace]
    refine ⟨_, _, rfl, ?_, hk⟩
    simp [KeptProperties, calloutLead?_of_inert hin, permalinkId?_of_inert hin]

mutual

-- By recursion on the node before; its place says which of the three ways it was left in.
theorem kept_of_left : ∀ (node : Node) (place : Place) {after : Node}, Left config place node after →
    TrimsTo place node after
  | .root cs x, place, after, h => by
    cases place with
    | plain =>
      obtain rfl := h
      exact trimsTo_root x (keptAll_of_leftAll cs _ (@leftAll_rewrittenAll config cs))
    | paragraph => exact absurd h.1 (by simp [Node.hasTag])
    | lead =>
      obtain ⟨_, _, _, h, -⟩ := h
      cases h
  | .element tag p cs x, place, after, h => by
    cases place with
    | plain =>
      obtain rfl := h
      obtain ⟨content, hu, hl⟩ := @unlink?_restyle config ⟨tag, p, cs, x⟩
      exact trimsTo_element hu (keptAll_of_leftAll cs _ hl)
    | paragraph =>
      obtain ⟨htag, lead, rfl⟩ := h
      obtain rfl : tag = "p" := by simpa [Node.hasTag] using htag
      exact trimsTo_paragraph p x lead
        (keptAll_of_leftAll cs _ (@leftAll_setLeadText config lead cs))
    | lead =>
      obtain ⟨_, _, _, h, -⟩ := h
      cases h
  | .text value x, place, after, h => by
    cases place with
    | plain =>
      obtain rfl := h
      rw [rewritten]
      exact ⟨_, rfl, by rw [Kept]; exact ⟨value, rfl, fun _ => rfl⟩⟩
    | paragraph => exact absurd h.1 (by simp [Node.hasTag])
    | lead =>
      obtain ⟨_, _, lead, h, rfl⟩ := h
      cases h
      exact ⟨_, rfl, by rw [Kept]; exact ⟨lead, rfl, fun hne => absurd rfl hne⟩⟩
  | .other kind value cs x, place, after, h => by
    cases place with
    | plain =>
      obtain rfl := h
      rw [rewritten]
      exact ⟨_, rfl, by rw [Kept]⟩
    | paragraph => exact absurd h.1 (by simp [Node.hasTag])
    | lead =>
      obtain ⟨_, _, _, h, -⟩ := h
      cases h

theorem keptAll_of_leftAll : ∀ (nodes : List Node) (places : Nat → Place) {after : List Node},
    LeftAll config places nodes after → AllTrimTo places nodes after
  | [], _, _, h => by
    obtain rfl := h
    exact ⟨[], rfl, by rw [KeptAll]⟩
  | node :: cs, places, _, h => by
    obtain ⟨d, ds, rfl, hd, hds⟩ := h
    obtain ⟨m, hm, hkm⟩ := kept_of_left node _ hd
    obtain ⟨ms, hms, hkms⟩ := keptAll_of_leftAll cs _ hds
    refine ⟨m :: ms, ?_, by rw [KeptAll]; exact ⟨m, ms, rfl, hkm, hkms⟩⟩
    simp [trimAll?, hm, hms]

end

/-! ### What is kept in particular -/

/-- The identifier of an element. -/
def identifier? (node : Node) : Option PropertyValue := node.element?.bind (·.property? "id")

/-- The fields of an element beside its content. -/
def ownFields? : Node → Option (String × Option Properties × Extra)
  | .element tag properties _ extra => some (tag, properties, extra)
  | _ => none

theorem identifier?_of_kept {place : Place} {before after : Node} (h : Kept place before after) :
    identifier? after = identifier? before := by
  cases before with
  | root => rw [Kept] at h; obtain ⟨ds, rfl, -⟩ := h; rfl
  | element tag p cs x =>
    rw [Kept] at h
    obtain ⟨q, ds, rfl, hq, -⟩ := h
    unfold KeptProperties at hq
    split at hq
    next =>
      obtain ⟨p', q', rfl, rfl, -, hget⟩ := hq
      exact hget "id" (by decide)
    next => rw [hq]; rfl
  | text => rw [Kept] at h; obtain ⟨w, rfl, -⟩ := h; rfl
  | other => rw [Kept] at h; rw [h]

theorem ownFields?_of_kept {place : Place} {before after : Node} (h : Kept place before after)
    (htag : before.hasTag "h6" = true ∨ before.hasTag "table" = true) :
    ownFields? after = ownFields? before := by
  cases before with
  | element tag p cs x =>
    have hin : Inert ⟨tag, p, cs, x⟩ := by
      rcases htag with htag | htag <;>
        · obtain rfl := by simpa [Node.hasTag] using htag
          simp [Inert, permalinkTags]
    rw [Kept] at h
    obtain ⟨q, ds, rfl, hq, -⟩ := h
    simp only [KeptProperties, calloutLead?_of_inert hin, permalinkId?_of_inert hin] at hq
    rw [show q = p from by simpa using hq]
    rfl
  | _ => simp [Node.hasTag] at htag

/-- The second tree holds the first one: without what the rules add, it is the first one but for
classes and lead texts; and every node of a kind that is not interpreted is the same with all it
holds, and so are every identifier, every text that is no lead text, and the own fields of every
`h6` and every table. -/
def Keeps (before after : Node) : Prop :=
  ∃ remains, trim? before after = some remains ∧ Kept .plain before remains ∧
    ∀ place m n, (place, m, n) ∈ pairs .plain before remains →
      (∀ kind value children extra, m = .other kind value children extra → n = m) ∧
      identifier? n = identifier? m ∧
      (place ≠ .lead → ∀ value extra, m = .text value extra → n = m) ∧
      (m.hasTag "h6" = true ∨ m.hasTag "table" = true → ownFields? n = ownFields? m)

/-- **A run neither loses, nor repeats, nor moves anything**, and changes no more than the classes of
callouts and headings and the lead texts of callouts. -/
theorem run_keeps (config : Config) (r : Root) (h : (run config r).failure = none) :
    Keeps r.toNode (run config r).root.toNode := by
  rw [run_root_of_not_failed h, toNode_rewrittenTree]
  obtain ⟨remains, ht, hk⟩ := @kept_of_left config r.toNode .plain _ rfl
  refine ⟨remains, ht, hk, fun place m n hmem => ?_⟩
  have hmn := kept_of_mem_pairs _ _ _ hk hmem
  refine ⟨?_, identifier?_of_kept hmn, ?_, ownFields?_of_kept hmn⟩
  · rintro kind value children extra rfl
    rwa [Kept] at hmn
  · rintro hplace value extra rfl
    rw [Kept] at hmn
    obtain ⟨w, rfl, hw⟩ := hmn
    rw [hw hplace]

/-- A document in which every rule applies: a callout with a marker, a heading with an identifier,
and a table; and beside them a comment. -/
def sampleDocument : Root where
  children :=
    [.element "blockquote" (some (.ofList [("class", .string "note")]))
        [.element "p" none [.ofText "(warn) careful"] .empty] .empty,
      .element "h2" (some (.ofList [("id", .string "intro")])) [.ofText "Intro"] .empty,
      .element "table" none [] .empty,
      .other "comment" (some "generated") none .empty]
  extra := .empty

theorem run_keeps_sampleDocument :
    (run {} sampleDocument).failure = none ∧
      Keeps sampleDocument.toNode (run {} sampleDocument).root.toNode :=
  ⟨by decide, run_keeps {} sampleDocument (by decide)⟩

end Docs

end DocTree
