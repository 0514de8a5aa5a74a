import DocTree.Proofs.Docs.Growth
import DocTree.Proofs.Docs.Sites
import DocTree.Proofs.Node.OtherNumbers

/-!
# Running the rules on a text again

What a run writes can be read again.  A text says a faithful tree, and the rules keep it faithful
(`faithful_rewritten`), so a tree never fails to be written; what they do to extra fields is nothing
(`plain_rewritten_iff`), so a tree comes back if those are plain, and the same tree if its doubles are
read back; and how deep the text nests is known from the tree before (`nesting_rewritten_le`).
`runText_closure` puts this together.
-/

namespace DocTree.Docs

open Json Node

/-! ### Properties of nodes that the rules of elements keep -/

/-- The property does not depend on what a text says, nor on what an element holds but for whether
all of it has the property. -/
structure Deep (P : Node → Prop) : Prop where
  text : ∀ v w x, P (.text v x) ↔ P (.text w x)
  element : ∀ t p cs ds x, ((∀ c ∈ cs, P c) ↔ ∀ d ∈ ds, P d) →
    (P (.element t p cs x) ↔ P (.element t p ds x))

section Deep

variable {P : Node → Prop} {config : Config}

theorem Deep.setLeadText (h : Deep P) (value : String) (nodes : List Node) :
    (∀ node ∈ setLeadText value nodes, P node) ↔ ∀ node ∈ nodes, P node := by
  induction nodes with
  | nil => rfl
  | cons node rest ih =>
    cases hn : node.text? with
    | none => rw [setLeadText_cons hn, List.forall_mem_cons, List.forall_mem_cons, ih]
    | some text =>
      cases node with
      | text _ extra =>
        rw [Docs.setLeadText, List.forall_mem_cons, List.forall_mem_cons, h.text value]
      | _ => cases hn

theorem Deep.mapContent (h : Deep P) (value : String) (node : Node) :
    P (mapContent (Docs.setLeadText value) node) ↔ P node := by
  cases node with
  | element tag properties children extra =>
    exact h.element _ _ _ _ _ (h.setLeadText value children)
  | _ => rfl

theorem forall_mem_modify {f : Node → Node} (hf : ∀ node, P (f node) ↔ P node) (nodes : List Node)
    (i : Nat) : (∀ node ∈ nodes.modify i f, P node) ↔ ∀ node ∈ nodes, P node := by
  induction nodes generalizing i with
  | nil => cases i <;> rfl
  | cons node rest ih =>
    cases i with
    | zero => rw [List.modify_zero_cons, List.forall_mem_cons, List.forall_mem_cons, hf]
    | succ i => rw [List.modify_succ_cons, List.forall_mem_cons, List.forall_mem_cons, ih]

/-- All content of an element has the property after its rules if it had it before, as long as
anchors have it. -/
theorem Deep.restyle (h : Deep P) (hanchor : ∀ id, P (permalinkAnchor config id)) (e : Element)
    (content : List Node) :
    (∀ node ∈ restyle config e content, P node) ↔ ∀ node ∈ content, P node := by
  unfold Docs.restyle
  cases hl : calloutLead? e with
  | some lead => exact forall_mem_modify (h.mapContent _) content lead.1
  | none =>
    cases hid : permalinkId? e with
    | some id =>
      dsimp only
      rw [List.forall_mem_append, and_iff_left]
      intro node hnode
      cases List.mem_singleton.1 hnode
      exact hanchor id
    | none => exact Iff.rfl

end Deep

variable {config : Config}

/-! ### Plain trees -/

theorem deep_plain : Deep Node.Plain where
  text v w x := by rw [Node.Plain, Node.Plain]
  element t p cs ds x h := by rw [Node.Plain, Node.Plain, allPlain_iff, allPlain_iff, h]

theorem plain_empty : Extra.empty.Plain := trivial

theorem plain_permalinkAnchor (config : Config) (id : String) : (permalinkAnchor config id).Plain :=
  ⟨⟨plain_empty, trivial⟩, plain_empty⟩

theorem plain_contain_iff (node : Node) : (contain config node).Plain ↔ node.Plain := by
  unfold contain
  split
  · have h : (tableContainer config node).Plain ↔ (node.Plain ∧ True) ∧ Extra.empty.Plain := Iff.rfl
    rw [h, and_iff_left plain_empty, and_true]
  · exact Iff.rfl

mutual

/-- A run changes no extra fields and adds none. -/
theorem plain_rewritten_iff : ∀ node : Node, (rewritten config node).Plain ↔ node.Plain
  | .root children extra => by
    have h : AllPlain ((rewrittenAll config children).map (contain config)) ↔
        AllPlain (rewrittenAll config children) := by
      rw [allPlain_iff, allPlain_iff, List.forall_mem_map]
      exact forall₂_congr fun node _ => plain_contain_iff node
    rw [rewritten, Node.Plain, Node.Plain, h, allPlain_rewrittenAll_iff children]
  | .element tag properties children extra => by
    have h := deep_plain.restyle (plain_permalinkAnchor config) ⟨tag, properties, children, extra⟩
      (rewrittenAll config children)
    rw [rewritten, restyled, Element.toNode, Node.Plain, Node.Plain,
      ← allPlain_rewrittenAll_iff children, allPlain_iff, allPlain_iff, h]
  | .text .. => by rw [rewritten]
  | .other .. => by rw [rewritten]

theorem allPlain_rewrittenAll_iff : ∀ nodes : List Node,
    AllPlain (rewrittenAll config nodes) ↔ AllPlain nodes
  | [] => by rw [rewrittenAll]
  | node :: rest => by
    rw [rewrittenAll, AllPlain, AllPlain, plain_rewritten_iff node, allPlain_rewrittenAll_iff rest]

end

/-! ### Faithful trees -/

theorem deep_faithful : Deep Node.Faithful where
  text v w x := by rw [Faithful, Faithful]
  element t p cs ds x h := by rw [Faithful, Faithful, allFaithful_iff, allFaithful_iff, h]

theorem unreserved_empty : Extra.empty.Unreserved := by rintro m ⟨⟩

/-- A map with nothing but strings is one of finite numbers. -/
theorem isFinite_insert {p : Properties} (h : p.IsFinite) (name s : String) :
    (p.insert name (.string s)).IsFinite := by
  intro entry hentry
  rcases Properties.mem_put hentry with rfl | hentry
  · trivial
  · exact h entry hentry

theorem isFinite_empty : Properties.empty.IsFinite := by rintro entry ⟨⟩

theorem faithful_permalinkAnchor (config : Config) (id : String) : (permalinkAnchor config id).Faithful := by
  refine ⟨(by decide : "a" ≠ ""), ?_, ⟨unreserved_empty, trivial⟩, unreserved_empty⟩
  rintro p ⟨⟩
  exact isFinite_insert (isFinite_insert (isFinite_insert isFinite_empty _ _) _ _) _ _

theorem faithful_contain {node : Node} (h : node.Faithful) : (contain config node).Faithful := by
  unfold contain
  split
  · refine ⟨(by decide : "div" ≠ ""), ?_, ⟨h, trivial⟩, unreserved_empty⟩
    rintro p ⟨⟩
    exact isFinite_insert isFinite_empty _ _
  · exact h

theorem isFinite_reclass {e : Element} (h : ∀ p ∈ e.properties, p.IsFinite) :
    ∀ p ∈ reclass config e, p.IsFinite := by
  have hmap : e.propertyMap.IsFinite := by
    unfold Element.propertyMap
    cases hp : e.properties with
    | none => exact isFinite_empty
    | some p => exact h p hp
  unfold reclass
  cases calloutLead? e with
  | some lead =>
    rintro p ⟨⟩
    exact isFinite_insert hmap _ _
  | none =>
    cases permalinkId? e with
    | some id =>
      rintro p ⟨⟩
      exact isFinite_insert hmap _ _
    | none => exact h

mutual

/-- A run keeps a faithful tree faithful. -/
theorem faithful_rewritten : ∀ node : Node, node.Faithful → (rewritten config node).Faithful
  | .root children extra, h => by
    rw [Faithful] at h
    rw [rewritten, Faithful, allFaithful_iff, List.forall_mem_map]
    exact ⟨fun node hnode => faithful_contain
      (allFaithful_iff.1 (allFaithful_rewrittenAll children h.1) node hnode), h.2⟩
  | .element tag properties children extra, h => by
    rw [Faithful] at h
    rw [rewritten, restyled, Element.toNode, Faithful]
    refine ⟨h.1, isFinite_reclass h.2.1, ?_, h.2.2.2⟩
    rw [allFaithful_iff, deep_faithful.restyle (faithful_permalinkAnchor config), ← allFaithful_iff]
    exact allFaithful_rewrittenAll children h.2.2.1
  | .text .., h => by rwa [rewritten]
  | .other .., h => by rwa [rewritten]

theorem allFaithful_rewrittenAll : ∀ nodes : List Node, AllFaithful nodes →
    AllFaithful (rewrittenAll config nodes)
  | [], h => by rwa [rewrittenAll]
  | node :: rest, h => by
    rw [AllFaithful] at h
    rw [rewrittenAll, AllFaithful]
    exact ⟨faithful_rewritten node h.1, allFaithful_rewrittenAll rest h.2⟩

end

/-! ### What can go wrong -/

theorem runText_of_error {text : String} {e : TreeError} (h : Root.parse text = .error e) :
    runText config text = .error (.tree e) := by
  rw [runText, h]
  rfl

theorem runText_of_ok {text : String} {r : Root} (h : Root.parse text = .ok r) :
    runText config text = match (run config r).failure with
      | some missing => .error (.missingLeadText missing)
      | none => (run config r).root.render.mapError .tree := by
  rw [runText, h]
  rfl

/-- The tree that a run leaves which nothing stopped is faithful, if the tree before is. -/
theorem faithful_run {r : Root} (hr : r.toNode.Faithful) (h : (run config r).failure = none) :
    (run config r).root.toNode.Faithful := by
  rw [run_root_of_not_failed h, toNode_rewrittenTree]
  exact faithful_rewritten r.toNode hr

/-- A run on a text that says a tree fails in strict mode only, and for nothing but a callout. -/
theorem runText_ne_tree_error {text : String} {r : Root} (h : Root.parse text = .ok r)
    (e : TreeError) : runText config text ≠ .error (.tree e) := by
  rw [runText_of_ok h]
  cases hfailure : (run config r).failure with
  | some missing => rintro ⟨⟩
  | none =>
    obtain ⟨j, -, hrender, -⟩ := Root.exists_render (faithful_run (faithful_of_parse h) hfailure)
    rw [hrender]
    rintro ⟨⟩

/-! ### The text of a run -/

/-- The text says a tree that equals the given one, and a run on it never fails for what it says. -/
def Readable (text : String) (r : Root) : Prop :=
  ∃ r', Root.parse text = .ok r' ∧ r'.toNode.same r.toNode = true ∧
    ∀ config e, runText config text ≠ .error (.tree e)

/-- The text of a faithful tree can be read again exactly if the tree is plain. -/
theorem readable_render_iff {r : Root} {out : Json} (h : r.toNode.Faithful)
    (hparse : ∀ r', Root.parse out.render = .ok r' ↔ r.toNode.reread = some r'.toNode) :
    Readable out.render r ↔ r.toNode.Plain := by
  constructor
  · rintro ⟨r', hr', hsame, -⟩
    exact plain_of_reread _ _ ((hparse r').1 hr') hsame
  · intro hplain
    have hr' : Root.parse out.render = .ok r.unsignedZeros := by
      rw [hparse, Root.toNode_unsignedZeros, reread_of_plain _ hplain]
    refine ⟨r.unsignedZeros, hr', ?_, fun _ => runText_ne_tree_error hr'⟩
    rw [Root.toNode_unsignedZeros]
    exact same_unsignedZeros _ h

/-- **A run on a text gives a text to run on again.**  What fails is the reading of the text, or, in
strict mode, a callout; writing never does.  What is written nests at most three levels deeper than
the text and two more for every table on a path, of which there is one at most where no roots stand
in the tree.  If it nests no deeper than may be read, it can be read and run on again; and if what is
written for its doubles is read as these, it is read as the tree that the run left.

All of this has to do with embedded texts.  What one says may nest deeper than the text it stands in, so
the first is said of texts that embed none.  And an object that begins with another member in the text may
begin like an embedded text in the order it is written in; the tree can be read again exactly if there
is no such object. -/
theorem runText_closure (config : Config) (text : String) :
    (∀ e, Root.parse text = .error e → runText config text = .error (.tree e)) ∧
    ∀ r, Root.parse text = .ok r →
      (AllRootless r.children → tablesOnPath r.toNode ≤ 1) ∧
      ((∃ missing, config.strictCallouts = true ∧
          runText config text = .error (.missingLeadText missing)) ∨
        ∃ j out : Json, readAll (@value Mismatch maxNesting) text = .ok j ∧
          (run config r).root.toNode.toJson = .ok out ∧ runText config text = .ok out.render ∧
          (EmbedsNothing j → out.nesting ≤ j.nesting + 2 * tablesOnPath r.toNode + 3) ∧
          (out.nesting ≤ maxNesting →
            (r.toNode.Plain → ∃ r', Root.parse out.render = .ok r' ∧
              ∀ config e, runText config out.render ≠ .error (.tree e)) ∧
            (out.ReadsBack → (Readable out.render (run config r).root ↔ r.toNode.Plain)))) := by
  refine ⟨fun e => runText_of_error, fun r h => ⟨tablesUnderRoot_le_one, ?_⟩⟩
  rw [runText_of_ok h]
  cases hfailure : (run config r).failure with
  | some missing => exact .inl ⟨missing, strict_of_failure hfailure, rfl⟩
  | none =>
    refine .inr ?_
    have hfaithful := faithful_run (faithful_of_parse h) hfailure
    obtain ⟨j, hj, hr⟩ := Root.parse_eq_ok_iff.1 h
    obtain ⟨out, hout, hrender, hread, hparse⟩ := Root.exists_render hfaithful
    have hroot : (run config r).root.toNode = rewritten config r.toNode := by
      rw [run_root_of_not_failed hfailure, toNode_rewrittenTree]
    refine ⟨j, out, hj, hout, by rw [hrender]; rfl, fun hnothing => ?_,
      fun hnesting => ⟨fun hplain => ?_, fun hback => ?_⟩⟩
    · have hbefore := leastNesting_le_nesting j _ hnothing (Root.ofJson?_eq_some_iff.1 hr)
      have hafter := @nesting_rewritten_le config r.toNode
      rw [nesting_of_toJson _ hout, hroot]
      omega
    · rw [← @plain_rewritten_iff config, ← hroot] at hplain
      obtain ⟨r', hr'⟩ := Root.exists_parse_of_plain hread hplain hnesting
      exact ⟨r', hr', fun _ => runText_ne_tree_error hr'⟩
    · rw [readable_render_iff hfaithful (hparse hnesting hback), hroot, plain_rewritten_iff]

/-- A text with a table and with a heading that gets a permalink, content left out. -/
def sampleValue : Json :=
  .object [("type", .string "root"), ("children", .array
    [.object [("type", .string "element"), ("tagName", .string "table")],
      .object [("type", .string "element"), ("tagName", .string "h2"),
        ("properties", .object [("id", .string "intro")])]])]

/-- The tree of the text. -/
def sampleTree : Root :=
  ⟨[.element "table" none [] (.ofMembers []),
      .element "h2" (some (.ofList [("id", .string "intro")])) [] (.ofMembers [])], .ofMembers []⟩

theorem runText_closure_sampleValue :
    Root.parse sampleValue.render = .ok sampleTree ∧
    ∃ out : Json, runText {} sampleValue.render = .ok out.render ∧
      out.nesting ≤ sampleValue.nesting + 2 * tablesOnPath sampleTree.toNode + 3 ∧
      Readable out.render (run {} sampleTree).root := by
  have hvalue : readAll (@value Mismatch maxNesting) sampleValue.render = .ok sampleValue :=
    readAll_render (by decide) rfl
  have hparse : Root.parse sampleValue.render = .ok sampleTree :=
    Root.parse_eq_ok_iff.2 ⟨sampleValue, hvalue, rfl⟩
  have hnothing : EmbedsNothing sampleValue := by
    refine .of_fields (by decide) fun items hitems item hitem => ?_
    obtain rfl : items = _ := by simpa [Field.key] using hitems
    rcases List.mem_cons.1 hitem with rfl | hitem
    · exact .of_fields (by decide) fun items hitems => by simp [Field.key] at hitems
    · cases List.mem_singleton.1 hitem
      exact .of_fields (by decide) fun items hitems => by simp [Field.key] at hitems
  obtain ⟨-, hrun⟩ := (runText_closure {} sampleValue.render).2 sampleTree hparse
  rcases hrun with ⟨_, hstrict, -⟩ | ⟨j, out, hj, hwritten, hout, hnesting, hreadable⟩
  · cases hstrict
  · rw [hvalue] at hj
    cases hj
    have hbound := hnesting hnothing
    have hplain : sampleTree.toNode.Plain := by
      simp [sampleTree, Root.toNode, Node.Plain, AllPlain, Extra.Plain, Extra.ofMembers,
        canonicalMembers, HavePlain]
    have hfits : sampleValue.nesting + 2 * tablesOnPath sampleTree.toNode + 3 ≤ maxNesting := by
      decide
    obtain ⟨-, hsame⟩ := hreadable (hbound.trans hfits)
    have hback : out.ReadsBack := by
      cases hwritten
      exact rfl
    exact ⟨hparse, out, hout, hbound, (hsame hback).2 hplain⟩

/-- A text with an extra field in which the key of embedded texts comes second. -/
def secondKeyValue : Json :=
  .object [("type", .string "root"), ("children", .array []),
    ("x", .object [("a", .null), (embeddedKey, .string "null")])]

/-- In the order of keys that comes first, so what a run writes for the text cannot be read. -/
theorem runText_secondKeyValue : ∃ r out, Root.parse secondKeyValue.render = .ok r ∧
    AllRootless r.children ∧ secondKeyValue.nesting + 2 * tablesOnPath r.toNode + 3 ≤ maxNesting ∧
    runText {} secondKeyValue.render = .ok out ∧ ∀ r', Root.parse out ≠ .ok r' := by
  let x : Extra := .ofMembers [("x", .object [("a", .null), (embeddedKey, .string "null")])]
  have hparse : Root.parse secondKeyValue.render = .ok ⟨[], x⟩ :=
    Root.parse_eq_ok_iff.2 ⟨secondKeyValue, readAll_render (by decide) rfl, rfl⟩
  have hrun : run {} ⟨[], x⟩ = ⟨⟨[], x⟩, ⟨0, 0, 0⟩, [.finished ⟨0, 0, 0⟩], none⟩ := rfl
  obtain ⟨j, hj, hrender, hread, -⟩ := Root.exists_render (faithful_of_parse hparse)
  have hnesting : j.nesting ≤ maxNesting := by
    rw [nesting_of_toJson _ hj]
    decide
  have hx : x.members = [("x", .object [(embeddedKey, .string "null"), ("a", .null)])] := rfl
  have hlost : (Root.toNode ⟨[], x⟩).reread = none := by
    obtain ⟨fault, hfault⟩ := @resolve_of_other_members
      [(embeddedKey, .string "null"), ("a", .null)] "null" rfl (by decide)
    have hreread : x.reread = none := by
      rw [Extra.reread, hx, resolveMembers, hfault]
      rfl
    rw [Root.toNode, reread, hreread]
    rfl
  refine ⟨_, j.render, hparse, trivial, by decide, ?_, fun r' hr' => ?_⟩
  · rw [runText_of_ok hparse, hrun]
    dsimp only
    rw [hrender]
    rfl
  · obtain ⟨back, hback⟩ := (Root.exists_parse_iff_reread hread hnesting).1 ⟨r', hr'⟩
    rw [hlost] at hback
    cases hback

end DocTree.Docs
