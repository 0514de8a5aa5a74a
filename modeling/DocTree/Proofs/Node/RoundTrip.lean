import DocTree.Proofs.Json.Embedded
import DocTree.Proofs.Node.Nesting
import DocTree.Proofs.Property.RoundTrip

/-!
# Reading back trees

A tree is *faithful* if its written form can tell it (`Node.Faithful`): no element has an empty tag,
no node of another kind has the kind of an interpreted one, no extra field has the key of a field,
and the numbers of properties are finite.  A faithful tree always has a written form, and what is
read of it is known (`Node.reread`): the same tree, but for the signs of zeros among the properties,
with the values of embedded texts put into the extra fields.  So, if its doubles are read back
(`Json.ReadsBack`), the tree itself comes back if and only if its extra fields are plain
(`Root.parse_render`).
-/

namespace DocTree

open Json

/-! ### Faithful trees -/

/-- No extra field has the key of a field that has a meaning on some kind of node. -/
def Extra.Unreserved (x : Extra) : Prop := ∀ m ∈ x.members, ∀ field : Node.Field, m.1 ≠ field.key

/-- No extra field embeds a text. -/
def Extra.Plain (x : Extra) : Prop := HavePlain x.members

namespace Node

mutual

/-- The node, but every zero among the properties without a sign. -/
def unsignedZeros : Node → Node
  | root children extra => root (unsignedZerosAll children) extra
  | element tag properties children extra =>
    element tag (properties.map Properties.unsignedZeros) (unsignedZerosAll children) extra
  | text value extra => text value extra
  | other kind value none extra => other kind value none extra
  | other kind value (some children) extra =>
    other kind value (some (unsignedZerosAll children)) extra

/-- The nodes, but every zero among the properties without a sign. -/
def unsignedZerosAll : List Node → List Node
  | [] => []
  | node :: rest => unsignedZeros node :: unsignedZerosAll rest

end

/-- The kinds of the nodes that are interpreted. -/
def interpretedKinds : List String := ["root", "element", "text"]

mutual

/-- What a written form can tell: no empty tag, no other node of an interpreted kind, no extra field
with the key of a field, and no number that is not finite, at any depth. -/
def Faithful : Node → Prop
  | root children extra => AllFaithful children ∧ extra.Unreserved
  | element tag properties children extra =>
    tag ≠ "" ∧ (∀ p ∈ properties, p.IsFinite) ∧ AllFaithful children ∧ extra.Unreserved
  | text _ extra => extra.Unreserved
  | other kind _ none extra => kind ∉ interpretedKinds ∧ extra.Unreserved
  | other kind _ (some children) extra =>
    kind ∉ interpretedKinds ∧ AllFaithful children ∧ extra.Unreserved

/-- Every node is faithful. -/
def AllFaithful : List Node → Prop
  | [] => True
  | node :: rest => node.Faithful ∧ AllFaithful rest

end

mutual

/-- The extra fields are plain at any depth. -/
def Plain : Node → Prop
  | root children extra => AllPlain children ∧ extra.Plain
  | element _ _ children extra => AllPlain children ∧ extra.Plain
  | text _ extra => extra.Plain
  | other _ _ none extra => extra.Plain
  | other _ _ (some children) extra => AllPlain children ∧ extra.Plain

/-- Every node is plain. -/
def AllPlain : List Node → Prop
  | [] => True
  | node :: rest => node.Plain ∧ AllPlain rest

end

theorem allFaithful_iff {nodes : List Node} : AllFaithful nodes ↔ ∀ node ∈ nodes, node.Faithful := by
  induction nodes with
  | nil => simp [AllFaithful]
  | cons node rest ih => rw [AllFaithful, ih, List.forall_mem_cons]

theorem allPlain_iff {nodes : List Node} : AllPlain nodes ↔ ∀ node ∈ nodes, node.Plain := by
  induction nodes with
  | nil => simp [AllPlain]
  | cons node rest ih => rw [AllPlain, ih, List.forall_mem_cons]

end Node

/-- The tree, but every zero among the properties without a sign. -/
def Root.unsignedZeros (r : Root) : Root := ⟨Node.unsignedZerosAll r.children, r.extra⟩

/-! ### What comes back -/

/-- The extra fields that are read where these were written, if any are. -/
def Extra.reread (x : Extra) : Option Extra := (resolveMembers x.members).toOption.map Extra.ofMembers

theorem Extra.reread_of_plain {x : Extra} (h : x.Plain) : x.reread = some x := by
  obtain ⟨members, hcanonical⟩ := x
  rw [isCanonical_object] at hcanonical
  rw [reread, resolveMembers_of_plain members h]
  simp only [Except.toOption, Option.map_some, ofMembers,
    canonicalMembers_of_increasing members hcanonical.1 hcanonical.2]

theorem Extra.plain_of_reread {x y : Extra} (h : x.reread = some y) (hsame : y.same x = true) :
    x.Plain := by
  obtain ⟨members, hcanonical⟩ := x
  rw [isCanonical_object] at hcanonical
  rw [reread] at h
  cases hvs : resolveMembers members with
  | error fault =>
    rw [hvs] at h
    cases h
  | ok vs =>
    rw [hvs] at h
    cases h
    exact havePlain_of_same members vs hcanonical.1 hcanonical.2 hvs hsame

namespace Node

mutual

/-- The node that is read where a faithful one was written, if any is. -/
def reread : Node → Option Node
  | root children extra =>
    (rereadAll children).bind fun children => extra.reread.map (root children)
  | element tag properties children extra =>
    (rereadAll children).bind fun children =>
      extra.reread.map (element tag (properties.map Properties.unsignedZeros) children)
  | text value extra => extra.reread.map (text value)
  | other kind value none extra => extra.reread.map (other kind value none)
  | other kind value (some children) extra =>
    (rereadAll children).bind fun children => extra.reread.map (other kind value (some children))

/-- The nodes that are read where faithful ones were written, if any are. -/
def rereadAll : List Node → Option (List Node)
  | [] => some []
  | node :: rest => (reread node).bind fun node => (rereadAll rest).map (node :: ·)

end

mutual

theorem reread_of_plain : ∀ node : Node, node.Plain → node.reread = some node.unsignedZeros
  | root children extra, h => by
    rw [Plain] at h
    rw [reread, rereadAll_of_plain children h.1, Option.bind_some, extra.reread_of_plain h.2,
      unsignedZeros, Option.map_some]
  | element tag properties children extra, h => by
    rw [Plain] at h
    rw [reread, rereadAll_of_plain children h.1, Option.bind_some, extra.reread_of_plain h.2,
      unsignedZeros, Option.map_some]
  | text value extra, h => by
    rw [Plain] at h
    rw [reread, extra.reread_of_plain h, unsignedZeros, Option.map_some]
  | other kind value none extra, h => by
    rw [Plain] at h
    rw [reread, extra.reread_of_plain h, unsignedZeros, Option.map_some]
  | other kind value (some children) extra, h => by
    rw [Plain] at h
    rw [reread, rereadAll_of_plain children h.1, Option.bind_some, extra.reread_of_plain h.2,
      unsignedZeros, Option.map_some]

theorem rereadAll_of_plain : ∀ nodes : List Node, AllPlain nodes →
    rereadAll nodes = some (unsignedZerosAll nodes)
  | [], _ => rfl
  | node :: rest, h => by
    rw [AllPlain] at h
    rw [rereadAll, reread_of_plain node h.1, Option.bind_some, rereadAll_of_plain rest h.2,
      unsignedZerosAll, Option.map_some]

end

mutual

/-- Only of a plain node an equal one comes back. -/
theorem plain_of_reread : ∀ (node back : Node), node.reread = some back →
    back.same node = true → node.Plain
  -- extra fields are plain since they are equal to what was read of them
  | root children extra, back, h, hsame => by
    obtain ⟨cs, hcs, h⟩ := Option.bind_eq_some_iff.1 h
    obtain ⟨y, hy, rfl⟩ := Option.map_eq_some_iff.1 h
    rw [same, Bool.and_eq_true] at hsame
    rw [Plain]
    exact ⟨allPlain_of_reread children cs hcs hsame.1, Extra.plain_of_reread hy hsame.2⟩
  | element tag properties children extra, back, h, hsame => by
    obtain ⟨cs, hcs, h⟩ := Option.bind_eq_some_iff.1 h
    obtain ⟨y, hy, rfl⟩ := Option.map_eq_some_iff.1 h
    simp only [same, Bool.and_eq_true] at hsame
    rw [Plain]
    exact ⟨allPlain_of_reread children cs hcs hsame.1.2, Extra.plain_of_reread hy hsame.2⟩
  | text value extra, back, h, hsame => by
    obtain ⟨y, hy, rfl⟩ := Option.map_eq_some_iff.1 h
    rw [same, Bool.and_eq_true] at hsame
    rw [Plain]
    exact Extra.plain_of_reread hy hsame.2
  | other kind value none extra, back, h, hsame => by
    obtain ⟨y, hy, rfl⟩ := Option.map_eq_some_iff.1 h
    simp only [same, Bool.and_eq_true] at hsame
    rw [Plain]
    exact Extra.plain_of_reread hy hsame.2
  | other kind value (some children) extra, back, h, hsame => by
    obtain ⟨cs, hcs, h⟩ := Option.bind_eq_some_iff.1 h
    obtain ⟨y, hy, rfl⟩ := Option.map_eq_some_iff.1 h
    simp only [same, Bool.and_eq_true] at hsame
    rw [Plain]
    exact ⟨allPlain_of_reread children cs hcs hsame.1.2, Extra.plain_of_reread hy hsame.2⟩

theorem allPlain_of_reread : ∀ nodes back : List Node, rereadAll nodes = some back →
    sameAll back nodes = true → AllPlain nodes
  | [], _, _, _ => by simp [AllPlain]
  | node :: rest, back, h, hsame => by
    obtain ⟨first, hfirst, h⟩ := Option.bind_eq_some_iff.1 h
    obtain ⟨others, hothers, rfl⟩ := Option.map_eq_some_iff.1 h
    rw [sameAll, Bool.and_eq_true] at hsame
    rw [AllPlain]
    exact ⟨plain_of_reread node first hfirst hsame.1,
      allPlain_of_reread rest others hothers hsame.2⟩

end

/-! ### Reading what was written -/

section

variable {fields : Fields} (rest : List (String × Json))

theorem fieldsOf?_type (h : fields.type = none) (s : String) :
    fieldsOf? fields (("type", .string s) :: rest) =
      fieldsOf? { fields with type := some s } rest := by
  rw [fieldsOf?, Fields.add?, show Field.ofKey? "type" = some .type from rfl]
  simp [Fields.has, h, string?]

theorem fieldsOf?_tagName (h : fields.tagName = none) (s : String) :
    fieldsOf? fields (("tagName", .string s) :: rest) =
      fieldsOf? { fields with tagName := some (some s) } rest := by
  rw [fieldsOf?, Fields.add?, show Field.ofKey? "tagName" = some .tagName from rfl]
  simp [Fields.has, h, optionalString?]

theorem fieldsOf?_valueMember (h : fields.value = none) (value : Option String) :
    fieldsOf? fields (valueMember value ++ rest) =
      fieldsOf? { fields with value := value.map some } rest := by
  cases value with
  | none =>
    obtain ⟨_, _, _, _, _, _⟩ := fields
    cases h
    rfl
  | some s =>
    rw [valueMember, List.cons_append, fieldsOf?, Fields.add?,
      show Field.ofKey? "value" = some .value from rfl]
    simp [Fields.has, h, optionalString?]

theorem fieldsOf?_propertiesMember (h : fields.properties = none) {properties : Option Properties}
    (hfinite : ∀ p ∈ properties, p.IsFinite) :
    fieldsOf? fields (propertiesMember properties ++ rest) =
      fieldsOf? { fields with properties := properties.map fun p => some p.unsignedZeros } rest := by
  cases properties with
  | none =>
    obtain ⟨_, _, _, _, _, _⟩ := fields
    cases h
    rfl
  | some p =>
    rw [propertiesMember, List.cons_append, fieldsOf?, Fields.add?,
      show Field.ofKey? "properties" = some .properties from rfl]
    simp [Fields.has, h, Properties.ofJson?_toJson (hfinite p rfl)]

theorem fieldsOf?_children (h : fields.children = none) (items : List Json) :
    fieldsOf? fields (("children", .array items) :: rest) =
      (nodesOf? items).bind fun children =>
        fieldsOf? { fields with children := some (some children) } rest := by
  rw [fieldsOf?, Fields.add?, show Field.ofKey? "children" = some .children from rfl, childrenOf?]
  cases nodesOf? items <;> simp [Fields.has, h]

end

/-- Members without a meaning are collected as extra fields. -/
theorem fieldsOf?_of_unreserved {members : List (String × Json)}
    (h : ∀ m ∈ members, ∀ field : Field, m.1 ≠ field.key) (fields : Fields) :
    fieldsOf? fields members = some { fields with extra := fields.extra ++ members } := by
  induction members generalizing fields with
  | nil => simp [fieldsOf?]
  | cons member rest ih =>
    obtain ⟨key, value⟩ := member
    obtain ⟨hkey, hrest⟩ := List.forall_mem_cons.1 h
    have hnone : Field.ofKey? key = none := by
      rw [Field.ofKey?, List.find?_eq_none]
      exact fun field _ hfield => hkey field (of_decide_eq_true hfield).symm
    rw [fieldsOf?, Fields.add?, hnone]
    simp only [Option.bind_some]
    rw [ih hrest, List.append_assoc]
    rfl

theorem Fields.toOption_toNode {fields : Fields} {kind : String} {x : Extra} {node : Extra → Node}
    (htype : fields.type = some kind) (hextra : fields.extra = x.members)
    (hnode : ∀ y, fields.toNodeOfKind kind y = .ok (node y)) :
    fields.toNode.toOption = x.reread.map node := by
  rw [toNode, htype]
  unfold toExtra Extra.reread
  rw [hextra]
  cases resolveMembers x.members with
  | error fault => rfl
  | ok vs =>
    simp only [Except.map, Except.mapError, bind, Except.bind, hnode]
    rfl

theorem Fields.toNodeOfKind_other {kind : String} (h : kind ∉ interpretedKinds) (fields : Fields)
    (y : Extra) : fields.toNodeOfKind kind y =
      .ok (.other kind fields.value.join fields.children.join y) := by
  unfold toNodeOfKind
  dsimp only
  split
  · exact absurd (by decide) h
  · exact absurd (by decide) h
  · exact absurd (by decide) h
  · rfl

section

variable {x : Extra}

theorem ofJson?_root (items : List Json) (hx : x.Unreserved) :
    ofJson? (.object (("type", .string "root") :: ("children", .array items) :: x.members)) =
      (nodesOf? items).bind fun children => x.reread.map (root children) := by
  rw [ofJson?, fieldsOf?_type _ rfl, fieldsOf?_children _ rfl, Option.bind_assoc]
  refine congrArg (Option.bind _) (funext fun children => ?_)
  rw [fieldsOf?_of_unreserved hx, Option.bind_some]
  exact Fields.toOption_toNode rfl rfl fun _ => rfl

theorem ofJson?_element {tag : String} (htag : tag ≠ "") {properties : Option Properties}
    (hfinite : ∀ p ∈ properties, p.IsFinite) (items : List Json) (hx : x.Unreserved) :
    ofJson? (.object (("type", .string "element") :: ("tagName", .string tag) ::
        propertiesMember properties ++ ("children", .array items) :: x.members)) =
      (nodesOf? items).bind fun children =>
        x.reread.map (element tag (properties.map Properties.unsignedZeros) children) := by
  rw [ofJson?, List.cons_append, List.cons_append, fieldsOf?_type _ rfl, fieldsOf?_tagName _ rfl,
    fieldsOf?_propertiesMember _ rfl hfinite, fieldsOf?_children _ rfl, Option.bind_assoc]
  refine congrArg (Option.bind _) (funext fun children => ?_)
  rw [fieldsOf?_of_unreserved hx, Option.bind_some]
  refine Fields.toOption_toNode rfl rfl fun y => ?_
  simp only [Fields.toNodeOfKind, Option.join_some, if_neg htag]
  cases properties <;> rfl

theorem ofJson?_text (value : String) (hx : x.Unreserved) :
    ofJson? (.object (("type", .string "text") :: ("value", .string value) :: x.members)) =
      x.reread.map (text value) := by
  have hvalue : ("value", .string value) :: x.members = valueMember (some value) ++ x.members := rfl
  rw [ofJson?, fieldsOf?_type _ rfl, hvalue, fieldsOf?_valueMember _ rfl,
    fieldsOf?_of_unreserved hx, Option.bind_some]
  exact Fields.toOption_toNode rfl rfl fun _ => rfl

theorem ofJson?_other {kind : String} (hkind : kind ∉ interpretedKinds) (value : Option String)
    (hx : x.Unreserved) :
    ofJson? (.object (("type", .string kind) :: valueMember value ++ x.members)) =
      x.reread.map (other kind value none) := by
  rw [ofJson?, List.cons_append, fieldsOf?_type _ rfl, fieldsOf?_valueMember _ rfl,
    fieldsOf?_of_unreserved hx, Option.bind_some]
  refine Fields.toOption_toNode rfl rfl fun y => ?_
  rw [Fields.toNodeOfKind_other hkind]
  cases value <;> rfl

theorem ofJson?_other_of_children {kind : String} (hkind : kind ∉ interpretedKinds)
    (value : Option String) (items : List Json) (hx : x.Unreserved) :
    ofJson? (.object (("type", .string kind) :: ("children", .array items) ::
        valueMember value ++ x.members)) =
      (nodesOf? items).bind fun children => x.reread.map (other kind value (some children)) := by
  rw [ofJson?, List.cons_append, List.cons_append, fieldsOf?_type _ rfl, fieldsOf?_children _ rfl,
    Option.bind_assoc]
  refine congrArg (Option.bind _) (funext fun children => ?_)
  rw [fieldsOf?_valueMember _ rfl, fieldsOf?_of_unreserved hx, Option.bind_some]
  refine Fields.toOption_toNode rfl rfl fun y => ?_
  rw [Fields.toNodeOfKind_other hkind]
  cases value <;> rfl

end

mutual

/-- A faithful node has a written form, and what that says is known. -/
theorem exists_toJson : ∀ node : Node, node.Faithful →
    ∃ j, node.toJson = .ok j ∧ ofJson? j = node.reread
  | root children extra, h => by
    rw [Faithful] at h
    obtain ⟨items, hitems, hread⟩ := exists_toJsonAll children h.1
    refine ⟨_, by rw [toJson, hitems]; rfl, ?_⟩
    rw [ofJson?_root items h.2, hread, reread]
  | element tag properties children extra, h => by
    rw [Faithful] at h
    obtain ⟨items, hitems, hread⟩ := exists_toJsonAll children h.2.2.1
    refine ⟨_, by rw [toJson, if_neg h.1, hitems]; rfl, ?_⟩
    rw [ofJson?_element h.1 h.2.1 items h.2.2.2, hread, reread]
  | text value extra, h => by
    rw [Faithful] at h
    refine ⟨_, by rw [toJson]; rfl, ?_⟩
    rw [ofJson?_text value h, reread]
  | other kind value none extra, h => by
    rw [Faithful] at h
    refine ⟨_, by rw [toJson]; rfl, ?_⟩
    rw [ofJson?_other h.1 value h.2, reread]
  | other kind value (some children) extra, h => by
    rw [Faithful] at h
    obtain ⟨items, hitems, hread⟩ := exists_toJsonAll children h.2.1
    refine ⟨_, by rw [toJson, hitems]; rfl, ?_⟩
    rw [ofJson?_other_of_children h.1 value items h.2.2, hread, reread]

theorem exists_toJsonAll : ∀ nodes : List Node, AllFaithful nodes →
    ∃ items, toJsonAll nodes = .ok items ∧ nodesOf? items = rereadAll nodes
  | [], _ => ⟨[], rfl, rfl⟩
  | node :: rest, h => by
    rw [AllFaithful] at h
    obtain ⟨j, hj, hread⟩ := exists_toJson node h.1
    obtain ⟨items, hitems, hreadAll⟩ := exists_toJsonAll rest h.2
    refine ⟨j :: items, by rw [toJsonAll, hj, hitems]; rfl, ?_⟩
    rw [nodesOf?, hread, hreadAll, rereadAll]

end

/-! ### Equality up to the signs of zeros -/

theorem sameProperties_unsignedZeros {properties : Option Properties}
    (h : ∀ p ∈ properties, p.IsFinite) :
    sameProperties (properties.map Properties.unsignedZeros) properties = true := by
  cases properties with
  | none => rfl
  | some p => exact Properties.same_unsignedZeros (h p rfl)

mutual

theorem same_unsignedZeros : ∀ node : Node, node.Faithful → node.unsignedZeros.same node = true
  | root children extra, h => by
    rw [Faithful] at h
    rw [unsignedZeros, same, sameAll_unsignedZerosAll children h.1, Extra.same, sameMembers_refl]
    rfl
  | element tag properties children extra, h => by
    rw [Faithful] at h
    rw [unsignedZeros, same, sameProperties_unsignedZeros h.2.1,
      sameAll_unsignedZerosAll children h.2.2.1, Extra.same, sameMembers_refl, beq_self_eq_true]
    rfl
  | text value extra, _ => by
    rw [unsignedZeros, same, Extra.same, sameMembers_refl, beq_self_eq_true]
    rfl
  | other kind value none extra, _ => by
    rw [unsignedZeros, same, Extra.same, sameMembers_refl, beq_self_eq_true, beq_self_eq_true]
    rfl
  | other kind value (some children) extra, h => by
    rw [Faithful] at h
    rw [unsignedZeros, same, sameAll_unsignedZerosAll children h.2.1, Extra.same,
      sameMembers_refl, beq_self_eq_true, beq_self_eq_true]
    rfl

theorem sameAll_unsignedZerosAll : ∀ nodes : List Node, AllFaithful nodes →
    sameAll (unsignedZerosAll nodes) nodes = true
  | [], _ => rfl
  | node :: rest, h => by
    rw [AllFaithful] at h
    rw [unsignedZerosAll, sameAll, same_unsignedZeros node h.1, sameAll_unsignedZerosAll rest h.2]
    rfl

end

end Node

/-! ### Whole trees -/

namespace Root

@[simp] theorem toNode_unsignedZeros (r : Root) :
    r.unsignedZeros.toNode = r.toNode.unsignedZeros := by
  rw [toNode, toNode, Node.unsignedZeros, unsignedZeros]

/-- A faithful tree is written, and what is read of the text, if it does not nest too deep and what is
written for its doubles is read as these, is what comes back of the tree. -/
theorem exists_render {r : Root} (h : r.toNode.Faithful) :
    ∃ j, r.toNode.toJson = .ok j ∧ r.render = .ok j.render ∧
      Node.ofJson? j = r.toNode.reread ∧
      (j.nesting ≤ maxNesting → j.ReadsBack →
        ∀ r', Root.parse j.render = .ok r' ↔ r.toNode.reread = some r'.toNode) := by
  obtain ⟨j, hj, hread⟩ := Node.exists_toJson r.toNode h
  refine ⟨j, hj, ?_, hread, fun hnesting hback r' => ?_⟩
  · rw [render, Node.render, hj]
    rfl
  · rw [parse_eq_ok_iff, ← hread, ← ofJson?_eq_some_iff]
    constructor
    · rintro ⟨i, hi, hr⟩
      rw [readAll_render hnesting hback] at hi
      cases hi
      exact hr
    · exact fun hr => ⟨j, readAll_render hnesting hback, hr⟩

/-- **Reading undoes writing.**  A faithful tree has a written form.  If that does not nest too deep, and
what is written for its doubles is read as these, the tree itself is read of it, but for the signs of
zeros, exactly if the extra fields embed no texts. -/
theorem parse_render {r : Root} (h : r.toNode.Faithful) :
    ∃ j, r.toNode.toJson = .ok j ∧ r.render = .ok j.render ∧
      (j.nesting ≤ maxNesting → j.ReadsBack →
        (Root.parse j.render = .ok r.unsignedZeros ↔ r.toNode.Plain)) := by
  obtain ⟨j, hj, hrender, -, hparse⟩ := exists_render h
  refine ⟨j, hj, hrender, fun hnesting hback => ?_⟩
  rw [hparse hnesting hback, toNode_unsignedZeros]
  constructor
  · exact fun hread => Node.plain_of_reread _ _ hread (Node.same_unsignedZeros _ h)
  · exact Node.reread_of_plain _

/-- One half. -/
def half : Binary64.Finite := ⟨false, Binary64.stepsPerUnit / 2, by decide +kernel⟩

theorem floatAsRead_half : floatAsRead half = half := by
  have hshortest : half.shortest .toEven = ⟨['5'], -1⟩ := by decide +kernel
  refine floatAsRead_of_isShort fun _ => ?_
  rw [hshortest]
  exact ⟨by decide, by decide, by decide⟩

/-- A tree with all that reading could lose: absent and empty maps and content, a zero with a sign, a
text to escape, and extra fields with numbers of both classes. -/
def sampleTree : Root where
  children :=
    [.element "h2" (some (.ofList [("size", .number (.finite (.zero true))),
          ("list", .list [.number (.finite (.zero false)), .string "a"]), ("id", .null)]))
        [.ofText "\"\n"] .empty,
      .element "p" none [] .empty,
      .element "p" (some .empty) [] .empty,
      .other "comment" (some "") none (.ofMembers [("line", .integer ⟨3, by decide⟩)]),
      .other "fragment" none (some [.root [] .empty]) .empty]
  extra := .ofMembers [("data", .array [.float (.zero true), .float half, .object []])]

theorem parse_render_sampleTree : sampleTree.toNode.Faithful ∧ sampleTree.toNode.Plain ∧
    ∃ text, sampleTree.render = .ok text ∧ Root.parse text = .ok sampleTree.unsignedZeros := by
  have hfaithful : sampleTree.toNode.Faithful := by
    have hzero (negative : Bool) : (Binary64.finite (.zero negative)).IsFinite := ⟨_, rfl⟩
    have hkeys : ∀ key ∈ ["line", "data"], ∀ field : Node.Field, key ≠ field.key := by
      rintro key hkey field
      cases field <;> exact (by decide : ∀ key ∈ ["line", "data"], key ≠ _) key hkey
    simp [sampleTree, toNode, Node.Faithful, Node.AllFaithful, Node.interpretedKinds,
      Extra.Unreserved, Extra.ofMembers, canonicalMembers, Members.insertEarlier, Node.ofText,
      Extra.empty, Properties.IsFinite, Properties.ofList, Properties.insert, Properties.put,
      Properties.empty, hkeys]
    rintro _ _ (⟨-, rfl⟩ | ⟨-, rfl⟩ | ⟨-, rfl⟩) <;>
      simp [PropertyValue.IsFinite, PropertyItem.IsFinite, hzero]
  have hplain : sampleTree.toNode.Plain := by
    simp [sampleTree, toNode, Node.Plain, Node.AllPlain, Extra.Plain, Extra.ofMembers,
      canonicalMembers, canonicalItems, canonical, Members.insertEarlier, HavePlain, ArePlain,
      Json.Plain, Node.ofText, Extra.empty, embedded?]
  obtain ⟨j, hj, hrender, hparse⟩ := parse_render hfaithful
  have hnesting : j.nesting ≤ maxNesting := by
    rw [Node.nesting_of_toJson _ hj]
    decide +kernel
  have hback : j.ReadsBack := by
    cases hj
    simp [sampleTree, Node.propertiesMember, Node.valueMember, Extra.ofMembers, Extra.empty,
      canonicalMembers, canonical, canonicalItems, Members.insertEarlier, Properties.toJson,
      Properties.ofList, Properties.insert, Properties.put, Properties.empty, PropertyValue.toJson,
      PropertyValue.itemToJson, floatAsRead_half]
  exact ⟨hfaithful, hplain, j.render, hrender, (hparse hnesting hback).2 hplain⟩

end Root

end DocTree
