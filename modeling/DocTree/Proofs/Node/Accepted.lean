import DocTree.Proofs.Json.Limit
import DocTree.Proofs.Node.Grammar

/-!
# Which texts are trees

The texts that are read as trees, said in two phases: first the value that a text says, with repeated
members as they are written, and then the grammar of nodes for that value.

One thing is asked for beyond the grammar.  An object in an extra field may begin like an embedded
text, and then has to be one that can be read (`Node.Resolvable`), and what it says takes its place.
Where nothing begins so, the tree is the one that the value stands for as it is
(`Node.built_of_embedsNothing`); `Root.not_parse_embeddedNumber` is a well-formed value that is no tree.
-/

namespace DocTree

open Json

namespace Node

/-- The kind of the node that a value says. -/
def kindIn? : Json → Option String
  | .object members => stringIn Field.type.key members
  | _ => none

theorem kindIn?_of_fieldsOfKind {kind : String} {members : List (String × Json)}
    (h : FieldsOfKind kind members) : kindIn? (.object members) = some kind := by
  exact (stringIn_eq_some_iff (h.once .type)).2 ((all_eq_singleton_iff (h.once .type)).1 h.type)

theorem kind_assemble {kind : String} {tag value : Option String} {properties : Option Properties}
    {content : Option (List Node)} {x : Extra} :
    (assemble kind tag value properties content x).kind = kind := by
  unfold assemble
  split <;> rfl

/-- The kind that a well-formed value says is that of the node that it stands for. -/
theorem kindIn?_of_wellFormed {say : Json → Json} {j : Json} (h : WellFormed j) :
    kindIn? j = some (built say j).kind := by
  cases h with
  | @object kind members hfields =>
    have hkind : stringIn Field.type.key members = some kind := kindIn?_of_fieldsOfKind hfields
    rw [kindIn?, built, kind_assemble, hkind]
    rfl

/-- The nodes of the kind of roots are roots. -/
theorem exists_assemble_eq_root_iff {kind : String} {tag value : Option String}
    {properties : Option Properties} {content : Option (List Node)} {x : Extra} :
    (∃ r : Root, r.toNode = assemble kind tag value properties content x) ↔ kind = "root" := by
  constructor
  · rintro ⟨r, hr⟩
    unfold assemble at hr
    split at hr
    · rfl
    · cases hr
    · cases hr
    · cases hr
  · rintro rfl
    exact ⟨⟨content.getD [], x⟩, rfl⟩

/-- A well-formed value stands for a root if that is its kind. -/
theorem exists_built_eq_root_iff {say : Json → Json} {j : Json} (h : WellFormed j) :
    (∃ r : Root, r.toNode = built say j) ↔ kindIn? j = some "root" := by
  cases h with
  | @object kind members hfields =>
    have hkind := kindIn?_of_fieldsOfKind hfields
    have hstring : stringIn Field.type.key members = some kind := hkind
    rw [built, exists_assemble_eq_root_iff, hkind, hstring]
    exact Option.some_inj.symm

/-! ### Values without embedded texts -/

theorem resolvable_of_embedsNothing {j : Json} (h : EmbedsNothing j) : Resolvable j := by
  induction h with
  | object hextra _ ih =>
    exact .object (fun m hm hnone => ⟨m.2, resolve_of_plain m.2 (hextra m hm hnone)⟩) ih

theorem extraIn_congr {say say' : Json → Json} {members : List (String × Json)}
    (h : ∀ m ∈ extraMembers members, say m.2 = say' m.2) :
    extraIn say members = extraIn say' members := by
  unfold extraIn
  rw [List.map_congr_left fun m hm => by rw [h m hm]]

theorem builtAll_congr {say say' : Json → Json} {items : List Json}
    (h : ∀ item ∈ items, built say item = built say' item) :
    builtAll say items = builtAll say' items := by
  induction items with
  | nil => rfl
  | cons item rest ih =>
    obtain ⟨hitem, hrest⟩ := List.forall_mem_cons.1 h
    rw [builtAll, builtAll, hitem, ih hrest]

theorem builtContent_congr {say say' : Json → Json} {members : List (String × Json)}
    (h : ∀ items, (Field.children.key, .array items) ∈ members →
      ∀ item ∈ items, built say item = built say' item) :
    builtContent say members = builtContent say' members := by
  rw [builtContent_eq, builtContent_eq]
  cases hhead : (Members.all Field.children.key members).head? with
  | none => rfl
  | some j =>
    have hj := Members.mem_all_iff.1 (List.mem_of_head? hhead)
    cases j with
    | array items => exact congrArg some (builtAll_congr (h items hj))
    | _ => rfl

/-- Where no extra field embeds a text, the tree is the one that the value stands for as it is. -/
theorem built_of_embedsNothing {j : Json} (h : EmbedsNothing j) : built resolved j = built id j := by
  induction h with
  | @object members hextra _ ih =>
    have hplain : ∀ m ∈ extraMembers members, m.2.resolved = id m.2 := by
      intro m hm
      obtain ⟨hm, hnone⟩ := List.mem_filter.1 hm
      exact resolved_of_plain (hextra m hm (Option.isNone_iff_eq_none.1 hnone))
    rw [built, built, extraIn_congr hplain, builtContent_congr ih]

/-- Of an extra field that comes more than once, the last value counts; a field is none. -/
theorem get?_extraIn (say : Json → Json) (members : List (String × Json)) (key : String) :
    Members.get? key (extraIn say members).members =
      if (Field.ofKey? key).isSome then none
      else (Members.last? key members).map fun value => (say value).canonical := by
  have hall : Members.all key ((extraMembers members).map fun m => (m.1, say m.2)) =
      if (Field.ofKey? key).isNone then (Members.all key members).map say else [] := by
    rw [Members.all_map, extraMembers, Members.all_filter key fun name => (Field.ofKey? name).isNone]
    split <;> rfl
  rw [extraIn, Extra.ofMembers, get?_canonicalMembers, Members.last?, hall]
  cases Field.ofKey? key with
  | some field => rfl
  | none => simp [Members.last?, List.getLast?_map, Function.comp_def]

end Node

/-! ### Whole texts -/

theorem Root.parse_eq_ok_iff_built {text : String} {r : Root} :
    Root.parse text = .ok r ↔ ∃ j, Says Mismatch text j ∧ j.nesting ≤ maxNesting ∧
      Node.WellFormed j ∧ Node.Resolvable j ∧ r.toNode = Node.built resolved j := by
  simp only [Root.parse_eq_ok_iff, readAll_value_iff, Root.ofJson?_eq_some_iff,
    Node.ofJson?_eq_some_iff _ _, and_assoc]

/-- What counts where the members of an object come more than once: of a property the first place and
the last value, of an extra field the last value, and so at every level of an extra field. -/
structure LastCounts (members : List (String × Json)) : Prop where
  names : (Properties.ofMembers members).names = (members.map (·.1)).eraseDups
  property : ∀ key, (Properties.ofMembers members).get? key =
    (Members.last? key members).map fun j => (PropertyValue.ofJson? j).getD .null
  extra : ∀ say key, Members.get? key (Node.extraIn say members).members =
    if (Node.Field.ofKey? key).isSome then none
    else (Members.last? key members).map fun j => (say j).canonical
  within : ∀ key, Members.get? key (canonicalMembers members) =
    (Members.last? key members).map canonical

/-- **The texts that are trees** are those of a well-formed value that is a root and nests no deeper
than the limit.  Texts embedded in its extra fields have to be readable, and what they say takes their
place; where there are none, the tree is the one that the value stands for as it is. -/
theorem Root.parse_iff_grammar (text : String) :
    ((∃ r, Root.parse text = .ok r) ↔
      ∃ j, Says Mismatch text j ∧ j.nesting ≤ maxNesting ∧ Node.WellFormed j ∧
        Node.kindIn? j = some "root" ∧ Node.Resolvable j) ∧
    (∀ j r, Says Mismatch text j → Root.parse text = .ok r → r.toNode = Node.built resolved j) ∧
    (∀ j, Says Mismatch text j → Node.EmbedsNothing j →
      Node.Resolvable j ∧ Node.built resolved j = Node.built id j) ∧
    ∀ members, LastCounts members := by
  refine ⟨⟨?_, ?_⟩, fun j r hj hr => ?_, fun j _ h => ?_, fun members => ?_⟩
  · rintro ⟨r, hr⟩
    obtain ⟨j, hj, hnesting, hwell, hresolvable, hbuilt⟩ := Root.parse_eq_ok_iff_built.1 hr
    have hkind := (Node.exists_built_eq_root_iff hwell).1 ⟨r, hbuilt⟩
    exact ⟨j, hj, hnesting, hwell, hkind, hresolvable⟩
  · rintro ⟨j, hj, hnesting, hwell, hkind, hresolvable⟩
    obtain ⟨r, hbuilt⟩ := (Node.exists_built_eq_root_iff hwell).2 hkind
    exact ⟨r, Root.parse_eq_ok_iff_built.2 ⟨j, hj, hnesting, hwell, hresolvable, hbuilt⟩⟩
  · -- the text says one value only, so the tree is built of the one that is given
    obtain ⟨i, hi, -, -, -, hbuilt⟩ := Root.parse_eq_ok_iff_built.1 hr
    rw [hbuilt, says_unique hi hj]
  · exact ⟨Node.resolvable_of_embedsNothing h, Node.built_of_embedsNothing h⟩
  · exact ⟨Properties.names_ofMembers members, Properties.get?_ofMembers members,
      fun say key => Node.get?_extraIn say members key, fun key => get?_canonicalMembers key members⟩

/-- A root with a property and an extra field that come twice, and with a field of another kind. -/
def sampleRepeats : Json :=
  .object [("tagName", .null), ("type", .string "root"), ("x", .null), ("x", .bool true),
    ("children", .array
      [.object [("type", .string "element"), ("tagName", .string "p"),
        ("properties", .object [("a", .null), ("b", .null), ("a", .string "last")])]])]

/-- The tree of the text. -/
def sampleRepeatsTree : Root :=
  ⟨[.element "p" (some (.ofList [("a", .string "last"), ("b", .null)])) [] (.ofMembers [])],
    .ofMembers [("x", .bool true)]⟩

theorem Root.parse_iff_grammar_sampleRepeats :
    ∃ r, Root.parse sampleRepeats.render = .ok r ∧ r.toNode = Node.built id sampleRepeats ∧
      r.toNode = sampleRepeatsTree.toNode := by
  have hreads : Says Mismatch sampleRepeats.render sampleRepeats :=
    ⟨maxNesting, readAll_render (by decide) rfl⟩
  have hread : Node.ofJson? sampleRepeats = some sampleRepeatsTree.toNode := rfl
  obtain ⟨hwell, -, hbuilt⟩ := (Node.ofJson?_eq_some_iff _ _).1 hread
  have hnothing : Node.EmbedsNothing sampleRepeats := by
    refine .object ?_ fun items hitems item hitem => ?_
    · simp [Node.Field.ofKey?, Node.Field.all, Node.Field.key, Plain]
    · obtain rfl : items = _ := by simpa [Node.Field.key] using hitems
      cases List.mem_singleton.1 hitem
      exact .of_fields (by decide) fun items hitems => by simp [Node.Field.key] at hitems
  obtain ⟨haccepted, htree, hplain, -⟩ := Root.parse_iff_grammar sampleRepeats.render
  obtain ⟨hresolvable, hsame⟩ := hplain sampleRepeats hreads hnothing
  obtain ⟨r, hr⟩ := haccepted.2 ⟨sampleRepeats, hreads, by decide, hwell, by decide, hresolvable⟩
  have hbuiltr := htree sampleRepeats r hreads hr
  exact ⟨r, hr, hbuiltr.trans hsame, hbuiltr.trans hbuilt.symm⟩

/-- A root with an extra field that begins like an embedded text, but with a number in its place. -/
def embeddedNumber : Json :=
  .object [("type", .string "root"), ("x", .object [(embeddedKey, .integer ⟨5, by decide⟩)])]

/-- The value is a well-formed root, but no tree is read of its text. -/
theorem Root.not_parse_embeddedNumber :
    Says Mismatch embeddedNumber.render embeddedNumber ∧ embeddedNumber.nesting ≤ maxNesting ∧
    Node.WellFormed embeddedNumber ∧ Node.kindIn? embeddedNumber = some "root" ∧
    ∀ r, Root.parse embeddedNumber.render ≠ .ok r := by
  have hread : readAll (@value Mismatch maxNesting) embeddedNumber.render = .ok embeddedNumber :=
    readAll_render (by decide) rfl
  have hfields : Node.FieldsOfKind "root"
      [("type", .string "root"), ("x", .object [(embeddedKey, .integer ⟨5, by decide⟩)])] := by
    refine ⟨by simp [Members.all, Node.Field.key], fun field => by cases field <;> decide, ?_, ?_,
      ?_, ?_, ?_, ?_⟩ <;> simp [Node.Field.key]
  refine ⟨⟨maxNesting, hread⟩, by decide, .object hfields (by simp [Node.Field.key]), by decide,
    fun r hr => ?_⟩
  obtain ⟨j, hj, hr⟩ := Root.parse_eq_ok_iff.1 hr
  rw [hread] at hj
  cases hj
  cases hr

end DocTree
