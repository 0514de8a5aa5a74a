import DocTree.Proofs.Json.Limit
import DocTree.Proofs.Node.NormalForm
import DocTree.Proofs.Node.Reduced

/-!
# Equality and written forms

Two nodes that were read are equal exactly if their texts say the same
(`Node.same_iff_written_equivalent`): objects are compared as maps without an order, arrays in order,
and numbers by class and value.  The fields of a node and its extra fields never have a key in common,
so both are compared apart (`Node.equivalent_written_iff`), and each field under its key
(`Node.field?`).  Zeros are why this is not plain injectivity: among the properties they are written
without a sign, among the extra fields with it.
-/

namespace DocTree

open Json

/-- A value is what its text says, its numerals taken for the nearest doubles. -/
theorem Json.says_render {Reason : Type} (j : Json) :
    SaysBy Reason Numeral.nearest? j.render j :=
  ⟨j.nesting, readAll_render_nearest (Nat.le_refl _)⟩

/-! ### Equal properties -/

namespace PropertyValue

/-- No zero is written with a sign. -/
theorem Written.unsignedZeros_eq {j : Json} (h : Written j) : j.unsignedZeros = j := by
  induction h with
  | float unsigned => rw [Json.unsignedZeros, unsigned]
  | array _ ih =>
    rw [Json.unsignedZeros, unsignedZerosItems_eq_map, List.map_congr_left ih, List.map_id']
  | _ => simp [Json.unsignedZeros]

theorem toJson_eq_iff {v w : PropertyValue} (hv : v.IsFinite) (hw : w.IsFinite) :
    v.toJson = w.toJson ↔ v.unsignedZeros = w.unsignedZeros := by
  constructor
  · intro h
    have hread := ofJson?_toJson hv
    rw [h, ofJson?_toJson hw] at hread
    exact (Option.some.inj hread).symm
  · intro h
    rw [← toJson_unsignedZeros v, h, toJson_unsignedZeros]

/-- Values with finite numbers are equal exactly if what is written of them says the same. -/
theorem same_iff_equivalent {v w : PropertyValue} (hv : v.IsFinite) (hw : w.IsFinite) :
    v.same w = true ↔ v.toJson.Equivalent w.toJson := by
  rw [same_iff_unsignedZeros hv, ← toJson_eq_iff hv hw,
    ← Json.same_iff_equivalent v.written_toJson.isCanonical w.written_toJson.isCanonical,
    Json.same_iff_unsignedZeros, v.written_toJson.unsignedZeros_eq,
    w.written_toJson.unsignedZeros_eq]

end PropertyValue

namespace Properties

/-- Maps with finite numbers are equal exactly if what is written of them says the same. -/
theorem same_iff_equivalent {p q : Properties} (hp : p.IsFinite) (hq : q.IsFinite) :
    p.same q = true ↔ p.toJson.Equivalent q.toJson := by
  have hjson (r : Properties) : r.toJson = .object (r.entries.map fun m => (m.1, m.2.toJson)) := rfl
  rw [same_iff, hjson, hjson, equivalent_object_iff]
  refine forall_congr' fun name => ?_
  rw [Members.last?_map, Members.last?_map, rel_map_iff, ← get?_eq_last?, ← get?_eq_last?]
  exact rel_congr fun v hv w hw =>
    PropertyValue.same_iff_equivalent (hp.of_get? hv) (hq.of_get? hw)

end Properties

/-! ### Fields -/

theorem Extra.same_iff_equivalent {x y : Extra} :
    x.same y = true ↔ (object x.members).Equivalent (object y.members) := by
  rw [← Json.same_iff_equivalent x.canonical y.canonical, Json.same, Extra.same]

namespace Node

/-- The text that a node holds as its value. -/
def value? : Node → Option String
  | text value _ => some value
  | other _ value _ _ => value
  | _ => none

/-- The content of a node, if nodes of its kind have any; none differs from empty content. -/
def children? : Node → Option (List Node)
  | root children _ => some children
  | element _ _ children _ => some children
  | text .. => none
  | other _ _ children _ => children

/-- What is written in a field, given the written form of the content. -/
def field? (node : Node) (items : List Json) : Field → Option Json
  | .type => some (.string node.kind)
  | .tagName => node.element?.map fun e => .string e.tag
  | .value => node.value?.map .string
  | .properties => node.properties?.map Properties.toJson
  | .children => node.children?.map fun _ => .array items

theorem last?_valueMember (key : String) (value : Option String) :
    Members.last? key (valueMember value) =
      if Field.value.key = key then value.map .string else none := by
  cases value with
  | none => simp [valueMember, Members.last?_nil]
  | some s => exact Members.last?_singleton _ _ _

theorem last?_propertiesMember (key : String) (properties : Option Properties) :
    Members.last? key (propertiesMember properties) =
      if Field.properties.key = key then properties.map Properties.toJson else none := by
  cases properties with
  | none => simp [propertiesMember, Members.last?_nil]
  | some p => exact Members.last?_singleton _ _ _

theorem last?_ownMembers (node : Node) (items : List Json) (field : Field) :
    Members.last? field.key (node.ownMembers items) = node.field? items field := by
  fun_cases ownMembers node items <;> cases field <;>
    simp [Members.last?_cons, Members.last?_append, Members.last?_nil, last?_valueMember,
      last?_propertiesMember, Field.key, field?, kind, element?, value?, properties?, children?]

variable {a b : Node} {items others : List Json}

/-- A member with another key is not among the fields that a node is written with. -/
theorem last?_ownMembers_eq_none {key : String} (h : ∀ field : Field, key ≠ field.key) :
    Members.last? key (a.ownMembers items) = none := by
  rw [← Option.not_isSome_iff_eq_none, Members.isSome_last?_iff, keys_ownMembers]
  rintro hkey
  obtain ⟨field, -, rfl⟩ := List.mem_map.1 hkey
  exact h field rfl

theorem last?_extra_eq_none (h : a.extra.Unreserved) (field : Field) :
    Members.last? field.key a.extra.members = none := by
  rw [← Option.not_isSome_iff_eq_none, Members.isSome_last?_iff]
  rintro hkey
  obtain ⟨m, hm, heq⟩ := List.mem_map.1 hkey
  exact h m hm field heq

/-- Written nodes say the same if their fields and their extra fields do. -/
theorem equivalent_written_iff (ha : a.extra.Unreserved) (hb : b.extra.Unreserved) :
    (object (a.ownMembers items ++ a.extra.members)).Equivalent
        (object (b.ownMembers others ++ b.extra.members)) ↔
      (∀ field, Option.Rel Equivalent (a.field? items field) (b.field? others field)) ∧
        a.extra.same b.extra = true := by
  rw [Extra.same_iff_equivalent, equivalent_object_iff, equivalent_object_iff]
  simp only [Members.last?_append]
  -- a key is that of a field or of none, and only one of the two lists has members under it
  constructor
  · intro h
    refine ⟨fun field => ?_, fun key => ?_⟩
    · have hfield := h field.key
      rwa [last?_extra_eq_none ha, last?_extra_eq_none hb, Option.none_or, Option.none_or,
        last?_ownMembers, last?_ownMembers] at hfield
    · by_cases hkey : ∃ field : Field, key = field.key
      · obtain ⟨field, rfl⟩ := hkey
        rw [last?_extra_eq_none ha, last?_extra_eq_none hb]
        exact .none
      · have hextra := h key
        rwa [last?_ownMembers_eq_none fun field heq => hkey ⟨field, heq⟩,
          last?_ownMembers_eq_none fun field heq => hkey ⟨field, heq⟩, Option.or_none,
          Option.or_none] at hextra
  · rintro ⟨hfields, hextra⟩ key
    by_cases hkey : ∃ field : Field, key = field.key
    · obtain ⟨field, rfl⟩ := hkey
      rw [last?_extra_eq_none ha, last?_extra_eq_none hb, Option.none_or, Option.none_or,
        last?_ownMembers, last?_ownMembers]
      exact hfields field
    · rw [last?_ownMembers_eq_none fun field heq => hkey ⟨field, heq⟩,
        last?_ownMembers_eq_none fun field heq => hkey ⟨field, heq⟩, Option.or_none, Option.or_none]
      exact hextra key

theorem kind_ne_of_named {kind : String} {value : Option String} {children : Option (List Node)}
    {extra : Extra} (h : (other kind value children extra).Named) :
    kind ≠ "root" ∧ kind ≠ "element" ∧ kind ≠ "text" := by
  simpa [Named, interpretedKinds] using h

/-- Equality field by field.  The kind tells roots, elements, texts and other nodes apart. -/
theorem same_iff_fields (ha : a.Named) (hb : b.Named) :
    a.same b = true ↔ a.kind = b.kind ∧ a.element?.map Element.tag = b.element?.map Element.tag ∧
      a.value? = b.value? ∧ sameProperties a.properties? b.properties? = true ∧
      Option.Rel (fun cs ds => sameAll cs ds = true) a.children? b.children? ∧
      a.extra.same b.extra = true := by
  -- the kind of another node is none of those of a root, an element and a text
  cases a with
  | other k v cs x =>
    obtain ⟨hroot, helement, htext⟩ := kind_ne_of_named ha
    cases b with
    | other l w ds y =>
      cases cs <;> cases ds <;>
        simp [same, kind, element?, value?, properties?, children?, extra, sameProperties, and_assoc]
    | _ => cases cs <;> simp [same, kind, hroot, helement, htext]
  | _ =>
    cases b with
    | other l w ds y =>
      obtain ⟨hroot, helement, htext⟩ := kind_ne_of_named hb
      cases ds <;> simp [same, kind, hroot.symm, helement.symm, htext.symm]
    | _ =>
      simp [same, kind, element?, value?, properties?, children?, extra, sameProperties, and_assoc]

theorem Faithful.named (h : a.Faithful) : a.Named := by
  cases a with
  | root => trivial
  | element => exact h.1
  | text => trivial
  | other kind value children extra =>
    cases children with
    | none => exact h.1
    | some => exact h.1

theorem Faithful.finite (h : a.Faithful) : ∀ p ∈ a.properties?, p.IsFinite := by
  cases a with
  | element => exact h.2.1
  | _ => exact nofun

theorem content_eq : a.content = a.children?.getD [] := by
  cases a <;> rfl

/-! ### Written nodes -/

theorem sameProperties_iff_equivalent {p q : Option Properties} (hp : ∀ r ∈ p, r.IsFinite)
    (hq : ∀ r ∈ q, r.IsFinite) : sameProperties p q = true ↔
      Option.Rel Equivalent (p.map Properties.toJson) (q.map Properties.toJson) := by
  rw [rel_map_iff]
  cases p with
  | none => cases q <;> simp [sameProperties]
  | some p =>
    cases q with
    | none => simp [sameProperties]
    | some q =>
      rw [Option.rel_some_some]
      exact Properties.same_iff_equivalent (hp p rfl) (hq q rfl)

/-- Strings that may be absent say the same only if they are equal. -/
theorem rel_equivalent_string {α : Type} {f : α → String} {x y : Option α} :
    Option.Rel Equivalent (x.map fun a => .string (f a)) (y.map fun a => .string (f a)) ↔
      x.map f = y.map f := by
  rw [rel_map_iff, ← rel_eq_iff]
  exact rel_congr fun _ _ _ _ => equivalent_string_iff

theorem sameAll_iff_forall₂ {nodes nodes' : List Node} {items others : List Json}
    (hitems : toJsonAll nodes = .ok items) (hothers : toJsonAll nodes' = .ok others)
    (each : ∀ m ∈ nodes, ∀ n ∈ nodes', ∀ i j, m.toJson = .ok i → n.toJson = .ok j →
      (m.same n = true ↔ i.Equivalent j)) :
    sameAll nodes nodes' = true ↔ List.Forall₂ Equivalent items others := by
  induction nodes generalizing nodes' items others with
  | nil =>
    cases hitems
    cases nodes' with
    | nil =>
      cases hothers
      simp [sameAll]
    | cons n ns =>
      obtain ⟨j, js, rfl, hj, hjs⟩ := exists_of_toJsonAll_cons hothers
      simp [sameAll]
  | cons m ms ih =>
    obtain ⟨i, is, rfl, hi, his⟩ := exists_of_toJsonAll_cons hitems
    cases nodes' with
    | nil =>
      cases hothers
      simp [sameAll]
    | cons n ns =>
      obtain ⟨j, js, rfl, hj, hjs⟩ := exists_of_toJsonAll_cons hothers
      have hfirst := each m List.mem_cons_self n List.mem_cons_self i j hi hj
      have hrest := ih his hjs fun m' hm n' hn =>
        each m' (List.mem_cons_of_mem _ hm) n' (List.mem_cons_of_mem _ hn)
      rw [sameAll, Bool.and_eq_true, hfirst, hrest, List.forall₂_cons]

/-- **Nodes are equal exactly if their written forms say the same**, if these can tell them. -/
theorem same_iff_equivalent (a b : Node) (ha : a.Faithful) (hb : b.Faithful) {i j : Json}
    (hi : a.toJson = .ok i) (hj : b.toJson = .ok j) : a.same b = true ↔ i.Equivalent j := by
  induction a using content_induction generalizing b i j with
  | step a ih =>
    obtain ⟨items, hitems, rfl⟩ := exists_of_toJson hi
    obtain ⟨others, hothers, rfl⟩ := exists_of_toJson hj
    -- field by field, the content by the induction
    have hcontent : Option.Rel (fun cs ds => sameAll cs ds = true) a.children? b.children? ↔
        Option.Rel Equivalent (a.field? items .children) (b.field? others .children) := by
      rw [field?, field?, rel_map_iff]
      refine rel_congr fun cs hcs ds hds => ?_
      have hbelow : sameAll a.content b.content = true ↔ List.Forall₂ Equivalent items others :=
        sameAll_iff_forall₂ hitems hothers fun m hm n hn i j =>
          ih m hm n (ha.of_mem_content hm) (hb.of_mem_content hn)
      rw [content_eq, hcs, content_eq, hds] at hbelow
      rw [equivalent_array_iff]
      exact hbelow
    have htype : a.kind = b.kind ↔
        Option.Rel Equivalent (a.field? items .type) (b.field? others .type) := by
      rw [field?, field?, Option.rel_some_some, equivalent_string_iff]
    have htag : a.element?.map Element.tag = b.element?.map Element.tag ↔
        Option.Rel Equivalent (a.field? items .tagName) (b.field? others .tagName) :=
      rel_equivalent_string.symm
    have hvalue : a.value? = b.value? ↔
        Option.Rel Equivalent (a.field? items .value) (b.field? others .value) := by
      rw [field?, field?]
      simpa using (rel_equivalent_string (f := id) (x := a.value?) (y := b.value?)).symm
    have hproperties := sameProperties_iff_equivalent ha.finite hb.finite
    rw [equivalent_written_iff ha.unreserved hb.unreserved, same_iff_fields ha.named hb.named,
      htype, htag, hvalue, hproperties, hcontent]
    constructor
    · rintro ⟨h₁, h₂, h₃, h₄, h₅, hextra⟩
      exact ⟨fun field => by cases field <;> assumption, hextra⟩
    · rintro ⟨h, hextra⟩
      exact ⟨h .type, h .tagName, h .value, h .properties, h .children, hextra⟩

/-! ### Nodes that were read -/

/-- The nodes that are read: what a text says as a node or as a tree, and the nodes below those. -/
inductive Decoded : Node → Prop
  | node {text : String} {node : Node} (read : parse text = .ok node) : Decoded node
  | root {text : String} {r : Root} (read : Root.parse text = .ok r) : Decoded r.toNode
  | content {node child : Node} (above : Decoded node) (mem : child ∈ node.content) : Decoded child

theorem Decoded.faithful (h : a.Decoded) : a.Faithful := by
  induction h with
  | node read =>
    obtain ⟨j, -, hj⟩ := parse_eq_ok_iff.1 read
    exact faithful_of_ofJson? j _ hj
  | root read => exact faithful_of_parse read
  | content _ mem ih => exact ih.of_mem_content mem

/-- The text of the node says the value, and no other one.  Every numeral in it denotes the nearest
double. -/
def Denotes (node : Node) (j : Json) : Prop :=
  ∃ text, node.render = .ok text ∧ ∀ i, SaysBy Mismatch Numeral.nearest? text i ↔ i = j

theorem denotes_of_toJson {j : Json} (h : a.toJson = .ok j) : a.Denotes j := by
  refine ⟨j.render, by rw [render, h]; rfl, fun i => ⟨fun hi => ?_, ?_⟩⟩
  · exact says_unique hi (says_render j)
  · rintro rfl
    exact says_render i

/-- One text says one value. -/
theorem Denotes.unique {i j : Json} (hi : a.Denotes i) (hj : b.Denotes j)
    (h : a.render = b.render) : i = j := by
  obtain ⟨text, htext, honly⟩ := hi
  obtain ⟨text', htext', honly'⟩ := hj
  rw [h, htext', Except.ok.injEq] at htext
  subst htext
  exact (honly' i).1 ((honly i).2 rfl)

/-- Equal nodes both have a property map or none, and both have content or none. -/
theorem absent_iff_of_same (ha : a.Named) (hb : b.Named) (h : a.same b = true) :
    (a.properties? = none ↔ b.properties? = none) ∧ (a.children? = none ↔ b.children? = none) := by
  obtain ⟨-, -, -, hproperties, hchildren, -⟩ := (same_iff_fields ha hb).1 h
  constructor
  · revert hproperties
    cases a.properties? <;> cases b.properties? <;> simp [sameProperties]
  · rw [← Option.not_isSome_iff_eq_none, ← Option.not_isSome_iff_eq_none, isSome_of_rel hchildren]

/-- **Equality of nodes is equality of what their texts say.**  Every node that was read can be written,
and its text says one value, in which no key comes twice.  Two such nodes are equal exactly if these
values agree, objects compared as maps, arrays in order, and numbers by class and value.

So equality is reflexive, symmetric and transitive; it ignores the order of properties and the signs of
zeros and nothing else; a property map that is absent differs from an empty one, and so does content;
and nodes with the same text are equal. -/
theorem same_iff_written_equivalent {a b : Node} (ha : a.Decoded) (hb : b.Decoded) :
    (∃ i j : Json, a.Denotes i ∧ b.Denotes j ∧ i.KeysDistinct ∧ j.KeysDistinct ∧
      (a.same b = true ↔ i.Equivalent j)) ∧
    a.same a = true ∧ (a.same b = true → b.same a = true) ∧
    (∀ c : Node, a.same b = true → b.same c = true → a.same c = true) ∧
    (a.same b = true ↔ a.reduced = b.reduced) ∧
    (a.same b = true → (a.properties? = none ↔ b.properties? = none) ∧
      (a.children? = none ↔ b.children? = none)) ∧
    (a.render = b.render → a.same b = true) := by
  obtain ⟨i, hi, -⟩ := exists_toJson a ha.faithful
  obtain ⟨j, hj, -⟩ := exists_toJson b hb.faithful
  have hequivalent := same_iff_equivalent a b ha.faithful hb.faithful hi hj
  have hreduced {m n : Node} (hm : m.Decoded) := same_iff_reduced m n hm.faithful
  refine ⟨⟨i, j, denotes_of_toJson hi, denotes_of_toJson hj,
    keysDistinct_of_toJson a ha.faithful hi, keysDistinct_of_toJson b hb.faithful hj,
    hequivalent⟩, (hreduced ha).2 rfl, fun h => ?_, fun c hab hbc => ?_, hreduced ha, fun h => ?_,
    fun h => ?_⟩
  · exact (hreduced hb).2 ((hreduced ha).1 h).symm
  · exact (hreduced ha).2 (((hreduced ha).1 hab).trans ((hreduced hb).1 hbc))
  · exact absent_iff_of_same ha.faithful.named hb.faithful.named h
  · have hij := (denotes_of_toJson hi).unique (denotes_of_toJson hj) h
    exact hequivalent.2 (hij ▸ .refl i)

/-- What says an element with two properties, given in some order, and an extra field.  The sign of both
zeros is given. -/
def sampleElement (negative : Bool) (order : List (String × Json) → List (String × Json)) : Json :=
  .object [("type", .string "element"), ("tagName", .string "p"),
    ("properties", .object (order [("a", .float (.zero negative)), ("b", .string "b")])),
    ("x", .array [.float (.zero negative), .integer ⟨1, by decide⟩])]

/-- The element. -/
def sampleElementNode (negative : Bool)
    (order : List (String × PropertyValue) → List (String × PropertyValue)) : Node :=
  .element "p"
    (some (.ofList (order [("a", .number (.finite (.zero negative))), ("b", .string "b")]))) []
    (.ofMembers [("x", .array [.float (.zero negative), .integer ⟨1, by decide⟩])])

/-- One of two such elements is read, and the other is content of a root that is read. -/
theorem same_iff_written_equivalent_sampleElement :
    (sampleElementNode true id).Decoded ∧ (sampleElementNode false List.reverse).Decoded ∧
    (sampleElementNode true id).same (sampleElementNode false List.reverse) = true ∧
    ∃ i j : Json, (sampleElementNode true id).Denotes i ∧
      (sampleElementNode false List.reverse).Denotes j ∧ i.Equivalent j := by
  have ha : (sampleElementNode true id).Decoded :=
    .node (parse_eq_ok_iff.2 ⟨sampleElement true id, readAll_render (by decide) rfl, rfl⟩)
  let out : Json :=
    .object [("type", .string "root"), ("children", .array [sampleElement false List.reverse])]
  have hr : Root.parse out.render = .ok ⟨[sampleElementNode false List.reverse], .ofMembers []⟩ :=
    Root.parse_eq_ok_iff.2 ⟨out, readAll_render (by decide) rfl, rfl⟩
  have hb : (sampleElementNode false List.reverse).Decoded :=
    .content (.root hr) List.mem_cons_self
  obtain ⟨⟨i, j, hi, hj, -, -, hequivalent⟩, -⟩ := same_iff_written_equivalent ha hb
  have hsame : (sampleElementNode true id).same (sampleElementNode false List.reverse) = true := by
    decide
  exact ⟨ha, hb, hsame, i, j, hi, hj, hequivalent.1 hsame⟩

end Node

end DocTree
