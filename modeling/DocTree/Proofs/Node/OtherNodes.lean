import DocTree.Proofs.Node.Accepted
import DocTree.Proofs.Node.Written

/-!
# Nodes of other kinds, written again

A node of a kind that is not interpreted is kept so that it can be written again.  Written members and
those that were read are compared by `Node.Survives`: no key is added or lost, and under each is an
equal value, content aside, of which the number of nodes and their kinds are compared.

Two things do not come back.  A tag and a property map are read on every node, but of other nodes they
are not kept; and in place of an embedded text stands what it says.  Where neither is there, all members
survive, and in no other case (`Node.parse_other`).
-/

namespace DocTree

open Json

namespace Node

/-! ### Kinds -/

theorem kindIn?_written {node : Node} (h : node.extra.Unreserved) (items : List Json) :
    kindIn? (.object (node.ownMembers items ++ node.extra.members)) = some node.kind := by
  have hlength := Members.length_all_le_one (nodup_keys_written h items) Field.type.key
  exact (stringIn_eq_some_iff hlength).2 ((mem_written_iff h).2 type_mem_ownMembers)

theorem map_kindIn?_builtAll {say : Json → Json} {items : List Json}
    (h : ∀ item ∈ items, WellFormed item) :
    items.map kindIn? = (builtAll say items).map fun node => some node.kind := by
  induction items with
  | nil => rfl
  | cons item rest ih =>
    obtain ⟨hitem, hrest⟩ := List.forall_mem_cons.1 h
    rw [List.map_cons, builtAll, List.map_cons, kindIn?_of_wellFormed hitem, ih hrest]

theorem map_kindIn?_toJsonAll {nodes : List Node} {items : List Json}
    (hitems : toJsonAll nodes = .ok items) (h : ∀ node ∈ nodes, node.Faithful) :
    items.map kindIn? = nodes.map fun node => some node.kind := by
  induction nodes generalizing items with
  | nil =>
    cases hitems
    rfl
  | cons node rest ih =>
    obtain ⟨hnode, hrest⟩ := List.forall_mem_cons.1 h
    obtain ⟨j, others, rfl, hj, hothers⟩ := exists_of_toJsonAll_cons hitems
    obtain ⟨below, -, rfl⟩ := exists_of_toJson hj
    rw [List.map_cons, List.map_cons, kindIn?_written hnode.unreserved, ih hothers hrest]

/-! ### Members that come back -/

/-- The members that were read come back in those that are written: no key is added, and every value is
there again, but for the order of members in objects.  Of content the number of nodes and their kinds
count.  A field that is null may be missing. -/
structure Survives (members out : List (String × Json)) : Prop where
  distinct : (out.map (·.1)).Nodup
  added : ∀ key ∈ out.map (·.1), key ∈ members.map (·.1)
  value : ∀ key j, (key, j) ∈ members → key ≠ Field.children.key →
    (∃ i, (key, i) ∈ out ∧ i.canonical = j.canonical) ∨
      j = .null ∧ (Field.ofKey? key).isSome ∧ key ∉ out.map (·.1)
  content : ∀ j, (Field.children.key, j) ∈ members →
    (∃ items others, j = .array items ∧ (Field.children.key, .array others) ∈ out ∧
      others.map kindIn? = items.map kindIn?) ∨
      j = .null ∧ Field.children.key ∉ out.map (·.1)

/-- Neither a tag nor a property map is there, and no extra field embeds a text. -/
structure Undropped (members : List (String × Json)) : Prop where
  tagName : ∀ j, (Field.tagName.key, j) ∈ members → j = .null
  properties : ∀ j, (Field.properties.key, j) ∈ members → j = .null
  extra : ∀ m ∈ members, Field.ofKey? m.1 = none → m.2.Plain

section Written

variable {kind : String} {members : List (String × Json)} {items : List Json}

/-- The node of another kind that members stand for. -/
def otherOf (kind : String) (members : List (String × Json)) : Node :=
  .other kind (stringIn Field.value.key members) (builtContent resolved members)
    (extraIn resolved members)

/-- What is written of it, given what is written of its content. -/
def otherMembers (kind : String) (members : List (String × Json)) (items : List Json) :
    List (String × Json) :=
  (otherOf kind members).ownMembers items ++ (extraIn resolved members).members

theorem built_eq_otherOf (hkind : kind ∉ interpretedKinds) (h : FieldsOfKind kind members) :
    built resolved (.object members) = otherOf kind members := by
  have hstring : stringIn Field.type.key members = some kind := kindIn?_of_fieldsOfKind h
  rw [built, hstring, Option.getD_some, otherOf]
  unfold assemble
  split <;> simp_all [interpretedKinds]

theorem mem_extraIn_iff {say : Json → Json} (h : (members.map (·.1)).Nodup) {m : String × Json} :
    m ∈ (extraIn say members).members ↔
      Field.ofKey? m.1 = none ∧ ∃ j, (m.1, j) ∈ members ∧ m.2 = (say j).canonical := by
  have hsorted := Members.nodup_of_increasing (isCanonical_object.1 (extraIn say members).canonical).1
  rw [← Members.get?_eq_some_iff_mem hsorted, get?_extraIn]
  cases hfield : Field.ofKey? m.1 with
  | some field => simp
  | none => simp [Members.last?_eq_some_iff_mem h, eq_comm]

theorem unreserved_extraIn {say : Json → Json} (h : (members.map (·.1)).Nodup) :
    (extraIn say members).Unreserved := by
  rintro m hm field hkey
  have hnone := ((mem_extraIn_iff h).1 hm).1
  rw [hkey, Field.ofKey?_key] at hnone
  cases hnone

theorem builtContent_eq_some_iff {say : Json → Json} (h : FieldsOfKind kind members)
    {nodes : List Node} : builtContent say members = some nodes ↔
      ∃ items, (Field.children.key, .array items) ∈ members ∧ nodes = builtAll say items := by
  rw [builtContent_eq, head?_all (h.once .children), Option.bind_eq_some_iff]
  simp only [last?_eq_some_iff (h.once .children)]
  constructor
  · rintro ⟨j, hj, hbuilt⟩
    cases j with
    | array items =>
      cases hbuilt
      exact ⟨items, hj, rfl⟩
    | _ => cases hbuilt
  · rintro ⟨items, hitems, rfl⟩
    exact ⟨_, hitems, rfl⟩

/-- What is written is the kind, the value, the content and the extra fields that were read. -/
theorem mem_otherMembers_iff (h : FieldsOfKind kind members) (hkeys : (members.map (·.1)).Nodup)
    {key : String} {i : Json} : (key, i) ∈ otherMembers kind members items ↔
      (key = Field.type.key ∧ i = .string kind) ∨
      ((∃ others, (Field.children.key, .array others) ∈ members) ∧
        key = Field.children.key ∧ i = .array items) ∨
      (∃ s, (Field.value.key, .string s) ∈ members ∧ key = Field.value.key ∧ i = .string s) ∨
      (Field.ofKey? key = none ∧ ∃ j, (key, j) ∈ members ∧ i = j.resolved.canonical) := by
  have hvalue (s : String) : stringIn Field.value.key members = some s ↔
      (Field.value.key, .string s) ∈ members := stringIn_eq_some_iff (h.once .value)
  have hcontent : (∃ others, (Field.children.key, .array others) ∈ members) ↔
      (builtContent resolved members).isSome = true := by
    simp [Option.isSome_iff_exists, builtContent_eq_some_iff h]
  rw [otherMembers, List.mem_append, mem_extraIn_iff hkeys, hcontent]
  simp only [← hvalue]
  cases hbuilt : builtContent resolved members with
  | none => simp [otherOf, hbuilt, ownMembers, mem_valueMember_iff, Field.key, or_assoc]
  | some nodes => simp [otherOf, hbuilt, ownMembers, mem_valueMember_iff, Field.key, or_assoc]

theorem mem_field_otherMembers_iff (h : FieldsOfKind kind members)
    (hkeys : (members.map (·.1)).Nodup) {field : Field} {i : Json} :
    (field.key, i) ∈ otherMembers kind members items ↔
      (field = .type ∧ i = .string kind) ∨
      ((∃ others, (Field.children.key, .array others) ∈ members) ∧
        field = .children ∧ i = .array items) ∨
      ∃ s, (Field.value.key, .string s) ∈ members ∧ field = .value ∧ i = .string s := by
  rw [mem_otherMembers_iff h hkeys]
  simp [Field.key_inj, Field.ofKey?_key]

theorem keys_otherMembers (h : FieldsOfKind kind members) (hkeys : (members.map (·.1)).Nodup) :
    ∀ key ∈ (otherMembers kind members items).map (·.1), key ∈ members.map (·.1) := by
  have hmem : ∀ {key : String} {j : Json}, (key, j) ∈ members → key ∈ members.map (·.1) :=
    fun hj => List.mem_map_of_mem (f := (·.1)) hj
  intro key hkey
  obtain ⟨⟨_, i⟩, hm, rfl⟩ := List.mem_map.1 hkey
  rcases (mem_otherMembers_iff h hkeys).1 hm with ⟨rfl, -⟩ | ⟨⟨others, hothers⟩, rfl, -⟩ |
    ⟨s, hs, rfl, -⟩ | ⟨-, j, hj, -⟩
  · exact hmem ((all_eq_singleton_iff (h.once .type)).1 h.type)
  · exact hmem hothers
  · exact hmem hs
  · exact hmem hj

/-- A field that is null is not written. -/
theorem not_mem_keys_of_null (h : FieldsOfKind kind members) (hkeys : (members.map (·.1)).Nodup)
    {field : Field} (hnull : (field.key, .null) ∈ members) :
    field.key ∉ (otherMembers kind members items).map (·.1) := by
  have hunique : ∀ {j : Json}, (field.key, j) ∈ members → j = .null :=
    fun hj => Members.eq_of_mem_of_mem hkeys hj hnull
  intro hkey
  obtain ⟨⟨_, i⟩, hm, heq⟩ := List.mem_map.1 hkey
  cases heq
  rcases (mem_field_otherMembers_iff h hkeys).1 hm with ⟨rfl, -⟩ | ⟨⟨others, hothers⟩, rfl, -⟩ |
    ⟨s, hs, rfl, -⟩
  · cases hunique ((all_eq_singleton_iff (h.once .type)).1 h.type)
  · cases hunique hothers
  · cases hunique hs

/-- Fields other than a tag and a property map come back. -/
theorem field_survives (h : FieldsOfKind kind members) (hkeys : (members.map (·.1)).Nodup)
    {field : Field} (hfield : field = .type ∨ field = .value) {j : Json}
    (hj : (field.key, j) ∈ members) (hnull : j ≠ .null) :
    (field.key, j) ∈ otherMembers kind members items := by
  rw [mem_field_otherMembers_iff h hkeys]
  rcases hfield with rfl | rfl
  · exact .inl ⟨rfl, Members.eq_of_mem_of_mem hkeys hj ((all_eq_singleton_iff (h.once .type)).1 h.type)⟩
  · rcases h.value j hj with rfl | ⟨s, rfl⟩
    · exact absurd rfl hnull
    · exact .inr (.inr ⟨s, hj, rfl, rfl⟩)

theorem survives_of_undropped (h : FieldsOfKind kind members) (hkeys : (members.map (·.1)).Nodup)
    (hundropped : Undropped members)
    (hitems : ∀ others, (Field.children.key, .array others) ∈ members →
      items.map kindIn? = others.map kindIn?) :
    Survives members (otherMembers kind members items) := by
  have hextra : (otherOf kind members).extra.Unreserved := unreserved_extraIn hkeys
  refine ⟨nodup_keys_written hextra items, keys_otherMembers h hkeys,
    fun key j hj hchildren => ?_, fun j hj => ?_⟩
  -- the members beside the content, and the content
  · cases hfield : Field.ofKey? key with
    | none =>
      -- an extra field is written as it was read, since it embeds nothing
      have hplain := hundropped.extra (key, j) hj hfield
      refine .inl ⟨j.canonical, ?_, canonical_of_isCanonical _ (isCanonical_canonical j)⟩
      refine (mem_otherMembers_iff h hkeys).2 (.inr (.inr (.inr ⟨hfield, j, hj, ?_⟩)))
      rw [resolved_of_plain hplain]
    | some field =>
      obtain rfl := Field.key_of_ofKey? hfield
      by_cases hnull : j = .null
      · rw [hnull] at hj
        exact .inr ⟨hnull, rfl, not_mem_keys_of_null h hkeys hj⟩
      · -- a tag and properties, which the node has no place for, could only have been null
        have hkept : field = .type ∨ field = .value := by
          cases field with
          | type => exact .inl rfl
          | value => exact .inr rfl
          | tagName => exact absurd (hundropped.tagName j hj) hnull
          | properties => exact absurd (hundropped.properties j hj) hnull
          | children => exact absurd rfl hchildren
        exact .inl ⟨j, field_survives h hkeys hkept hj hnull, rfl⟩
  · rcases h.children j hj with rfl | ⟨others, rfl⟩
    · exact .inr ⟨rfl, not_mem_keys_of_null h hkeys hj⟩
    · refine .inl ⟨others, items, rfl, ?_, hitems others hj⟩
      exact (mem_otherMembers_iff h hkeys).2 (.inr (.inl ⟨⟨others, hj⟩, rfl, rfl⟩))

theorem Resolvable.resolve_extra (h : Resolvable (.object members)) {m : String × Json}
    (hm : m ∈ members) (hnone : Field.ofKey? m.1 = none) : ∃ v, resolve m.2 = .ok v := by
  cases h with
  | object extra => exact extra m hm hnone

theorem undropped_of_survives (h : FieldsOfKind kind members)
    (hkeys : (Json.object members).KeysDistinct) (hresolvable : Resolvable (.object members))
    (hsurvives : Survives members (otherMembers kind members items)) : Undropped members := by
  obtain ⟨hkeys, hvalues⟩ := keysDistinct_object.1 hkeys
  -- no written field is a tag or a property map
  have hdropped : ∀ field : Field, field = .tagName ∨ field = .properties →
      ∀ j, (field.key, j) ∈ members → j = .null := by
    intro field hfield j hj
    have hne : field.key ≠ Field.children.key := by
      rcases hfield with rfl | rfl <;> decide
    rcases hsurvives.value _ j hj hne with ⟨i, hi, -⟩ | ⟨hnull, -, -⟩
    · rcases (mem_field_otherMembers_iff h hkeys).1 hi with ⟨rfl, -⟩ | ⟨-, rfl, -⟩ | ⟨-, -, rfl, -⟩ <;>
        simp at hfield
    · exact hnull
  refine ⟨hdropped .tagName (.inl rfl), hdropped .properties (.inr rfl), fun m hm hnone => ?_⟩
  have hne : ∀ field : Field, m.1 ≠ field.key := by
    intro field heq
    rw [heq, Field.ofKey?_key] at hnone
    cases hnone
  rcases hsurvives.value m.1 m.2 hm (hne .children) with ⟨i, hi, heq⟩ | ⟨-, hsome, -⟩
  · rcases (mem_otherMembers_iff h hkeys).1 hi with ⟨hkey, -⟩ | ⟨-, hkey, -⟩ | ⟨-, -, hkey, -⟩ |
      ⟨-, j, hj, rfl⟩
    · exact absurd hkey (hne .type)
    · exact absurd hkey (hne .children)
    · exact absurd hkey (hne .value)
    · rw [Members.eq_of_mem_of_mem hkeys hj hm,
        canonical_of_isCanonical _ (isCanonical_canonical _)] at heq
      obtain ⟨v, hv⟩ := hresolvable.resolve_extra hm hnone
      rw [resolved_of_eq_ok hv] at heq
      exact plain_of_resolvesToItself m.2 (hvalues m hm) ⟨v, hv, heq⟩
  · rw [hnone] at hsome
    cases hsome

end Written

/-! ### Whole texts -/

/-- **A node of another kind comes back with all its members** if it has neither a tag nor a property
map and no extra field embeds a text.  If no key is repeated at any level, all of them come back in no
other case. -/
theorem parse_other {text : String} {members : List (String × Json)} {kind : String} {node : Node}
    (hread : readAll (@value Mismatch maxNesting) text = .ok (.object members))
    (hkeys : (members.map (·.1)).Nodup) (htype : (Field.type.key, .string kind) ∈ members)
    (hkind : kind ∉ interpretedKinds) (hparse : Node.parse text = .ok node) :
    ∃ out, node.toJson = .ok (.object out) ∧ node.render = .ok (Json.object out).render ∧
      (Undropped members → Survives members out) ∧
      ((Json.object members).KeysDistinct → Survives members out → Undropped members) := by
  obtain ⟨j, hj, hnode⟩ := parse_eq_ok_iff.1 hparse
  rw [hread] at hj
  cases hj
  have hfaithful := faithful_of_ofJson? _ _ hnode
  obtain ⟨hwell, hresolvable, rfl⟩ := (ofJson?_eq_some_iff _ _).1 hnode
  obtain ⟨⟨said, hfields⟩, hchildren⟩ := wellFormed_object_iff.1 hwell
  obtain rfl : said = kind := string.inj (Members.eq_of_mem_of_mem hkeys
    ((all_eq_singleton_iff (hfields.once .type)).1 hfields.type) htype)
  rw [built_eq_otherOf hkind hfields] at hfaithful ⊢
  obtain ⟨j, hwritten, -⟩ := exists_toJson _ hfaithful
  obtain ⟨items, hitems, rfl⟩ := exists_of_toJson hwritten
  refine ⟨_, hwritten, by rw [render, hwritten]; rfl, fun hundropped => ?_, fun hdistinct => ?_⟩
  · refine survives_of_undropped hfields hkeys hundropped fun others hothers => ?_
    have hcontent : (otherOf said members).content = builtAll resolved others := by
      rw [otherOf, content, (builtContent_eq_some_iff hfields).2 ⟨others, hothers, rfl⟩]
      rfl
    have hbelow := map_kindIn?_toJsonAll hitems fun child => hfaithful.of_mem_content
    rw [hbelow, hcontent, map_kindIn?_builtAll (hchildren others hothers)]
  · exact undropped_of_survives hfields hdistinct hresolvable

/-- A node of another kind with a field that is null, an extra field, and a text in its content. -/
def sampleOther : Json :=
  .object [("attributes", .array [.object [("name", .string "href"), ("b", .null)]]),
    ("type", .string "mdxJsxFlowElement"), ("value", .null),
    ("children", .array [.object [("type", .string "text"), ("value", .string "a")]])]

/-- The node of the text. -/
def sampleOtherNode : Node :=
  .other "mdxJsxFlowElement" none (some [.text "a" (.ofMembers [])])
    (.ofMembers [("attributes", .array [.object [("name", .string "href"), ("b", .null)]])])

theorem parse_other_sampleOther :
    Node.parse sampleOther.render = .ok sampleOtherNode ∧
    ∃ members out, sampleOther = .object members ∧ sampleOtherNode.toJson = .ok (.object out) ∧
      Survives members out := by
  have hread : readAll (@value Mismatch maxNesting) sampleOther.render = .ok sampleOther :=
    readAll_render (by decide) rfl
  have hparse : Node.parse sampleOther.render = .ok sampleOtherNode :=
    parse_eq_ok_iff.2 ⟨sampleOther, hread, rfl⟩
  obtain ⟨out, hout, -, hsurvives, -⟩ := parse_other hread (by decide) (by simp [Field.key])
    (by decide : "mdxJsxFlowElement" ∉ interpretedKinds) hparse
  refine ⟨hparse, _, out, rfl, hout, hsurvives ⟨by simp [Field.key], by simp [Field.key], ?_⟩⟩
  simp [Field.ofKey?, Field.all, Field.key, Json.Plain, ArePlain, HavePlain, embedded?, embeddedKey]

/-- A node of another kind with a tag. -/
def taggedOther : Json :=
  .object [("type", .string "mdxJsxFlowElement"), ("tagName", .string "a")]

/-- The tag is read, but not written again. -/
theorem not_survives_taggedOther :
    Node.parse taggedOther.render = .ok (.other "mdxJsxFlowElement" none none (.ofMembers [])) ∧
    (Node.other "mdxJsxFlowElement" none none (.ofMembers [])).toJson =
      .ok (.object [("type", .string "mdxJsxFlowElement")]) ∧
    ¬ Survives [("type", .string "mdxJsxFlowElement"), ("tagName", .string "a")]
      [("type", .string "mdxJsxFlowElement")] := by
  refine ⟨parse_eq_ok_iff.2 ⟨taggedOther, readAll_render (by decide) rfl, rfl⟩, rfl, fun h => ?_⟩
  rcases h.value "tagName" (.string "a") (by simp) (by decide) with ⟨i, hi, -⟩ | ⟨hnull, -, -⟩
  · simp at hi
  · cases hnull

end Node

end DocTree
