import DocTree.Proofs.Node.Decoded
import DocTree.Proofs.Property.Grammar

/-!
# Which values are trees

A node is read in one pass, and refused as soon as something is wrong with it.  What is accepted can
be said in another way, of the value in the text as a whole: every field that a node may have is there
once at most and of its type, whether its kind has the field or not, and so are the fields of the
nodes in its content (`Node.WellFormed`).

* `Node.built` is the tree that such a value stands for.
* `Node.ofJson?_eq_some_iff`: there is a tree in just these values, as long as the texts embedded in
  extra fields can be read (`Node.Resolvable`).
-/

namespace DocTree

open Json

/-! ### Types of fields -/

namespace Json

/-- A string or null. -/
def IsOptionalString (j : Json) : Prop := j = .null ∨ ∃ s, j = .string s

/-- Null, or an object of which all members are properties, also overridden ones. -/
def IsOptionalProperties (j : Json) : Prop :=
  j = .null ∨ ∃ members, j = .object members ∧ ∀ m ∈ members, m.2.isPropertyValue = true

/-- An array or null. -/
def IsOptionalArray (j : Json) : Prop := j = .null ∨ ∃ items, j = .array items

theorem isSome_optionalString?_iff {j : Json} :
    j.optionalString?.isSome ↔ j.IsOptionalString := by
  cases j <;> simp [optionalString?, IsOptionalString]

theorem join_optionalString? (j : Json) : j.optionalString?.join = j.string? := by
  cases j <;> rfl

theorem optionalProperties?_object_eq_some_iff {members : List (String × Json)}
    {p : Option Properties} : (object members).optionalProperties? = some p ↔
      (∀ m ∈ members, m.2.isPropertyValue = true) ∧ p = some (Properties.ofMembers members) := by
  rw [optionalProperties?, Option.map_eq_some_iff]
  simp only [Properties.addAll_add?_eq_some_iff]
  constructor
  · rintro ⟨q, ⟨hmembers, rfl⟩, rfl⟩
    exact ⟨hmembers, rfl⟩
  · rintro ⟨hmembers, rfl⟩
    exact ⟨_, ⟨hmembers, rfl⟩, rfl⟩

theorem isSome_optionalProperties?_iff {j : Json} :
    j.optionalProperties?.isSome ↔ j.IsOptionalProperties := by
  cases j with
  | object members =>
    rw [Option.isSome_iff_exists]
    simp [optionalProperties?_object_eq_some_iff, IsOptionalProperties]
  | _ => simp [optionalProperties?, IsOptionalProperties]

/-- The value with the values of embedded texts put in, if they can be read. -/
def resolved (j : Json) : Json := (resolve j).toOption.getD j

theorem resolved_of_eq_ok {j v : Json} (h : resolve j = .ok v) : j.resolved = v := by
  rw [resolved, h]
  rfl

theorem resolved_of_plain {j : Json} (h : j.Plain) : j.resolved = j :=
  resolved_of_eq_ok (resolve_of_plain j h)

theorem resolveMembers_eq_ok_iff {members vs : List (String × Json)} :
    resolveMembers members = .ok vs ↔
      (∀ m ∈ members, ∃ v, resolve m.2 = .ok v) ∧ vs = members.map fun m => (m.1, m.2.resolved) := by
  induction members generalizing vs with
  | nil =>
    constructor
    · rintro ⟨⟩
      exact ⟨fun m hm => absurd hm List.not_mem_nil, rfl⟩
    · rintro ⟨-, rfl⟩
      rfl
  | cons head rest ih =>
    obtain ⟨key, value⟩ := head
    rw [resolveMembers, List.forall_mem_cons]
    constructor
    · intro h
      obtain ⟨v, hv, h⟩ := exists_of_bind_eq_ok h
      obtain ⟨others, hothers, h⟩ := exists_of_bind_eq_ok h
      cases h
      obtain ⟨hrest, rfl⟩ := ih.1 hothers
      exact ⟨⟨⟨v, hv⟩, hrest⟩, by rw [List.map_cons, resolved_of_eq_ok hv]⟩
    · rintro ⟨⟨⟨v, hv⟩, hrest⟩, rfl⟩
      rw [hv, ih.2 ⟨hrest, rfl⟩, List.map_cons, resolved_of_eq_ok hv]
      rfl

end Json

namespace Node

/-! ### The grammar -/

/-- The members of a node of the given kind: every field is there once at most and of its type, and
the node has what its kind needs.  The nodes in its content are not looked into. -/
structure FieldsOfKind (kind : String) (members : List (String × Json)) : Prop where
  type : Members.all Field.type.key members = [.string kind]
  once : ∀ field : Field, (Members.all field.key members).length ≤ 1
  tagName : ∀ j, (Field.tagName.key, j) ∈ members → j.IsOptionalString
  value : ∀ j, (Field.value.key, j) ∈ members → j.IsOptionalString
  properties : ∀ j, (Field.properties.key, j) ∈ members → j.IsOptionalProperties
  children : ∀ j, (Field.children.key, j) ∈ members → j.IsOptionalArray
  element : kind = "element" → ∃ tag, (Field.tagName.key, .string tag) ∈ members ∧ tag ≠ ""
  text : kind = "text" → ∃ value, (Field.value.key, .string value) ∈ members

/-- The value is a well-formed node, with all nodes in its content. -/
inductive WellFormed : Json → Prop
  | object {kind : String} {members : List (String × Json)} (fields : FieldsOfKind kind members)
    (children : ∀ items, (Field.children.key, .array items) ∈ members →
      ∀ item ∈ items, WellFormed item) : WellFormed (.object members)

/-- Texts embedded in the extra fields of the node and of the nodes in its content can be read. -/
inductive Resolvable : Json → Prop
  | object {members : List (String × Json)}
    (extra : ∀ m ∈ members, Field.ofKey? m.1 = none → ∃ v, resolve m.2 = .ok v)
    (children : ∀ items, (Field.children.key, .array items) ∈ members →
      ∀ item ∈ items, Resolvable item) : Resolvable (.object members)

/-- The string under a key. -/
def stringIn (key : String) (members : List (String × Json)) : Option String :=
  (Members.last? key members).bind string?

/-- The property map of a node; none if it is null. -/
def propertiesIn (members : List (String × Json)) : Option Properties :=
  match Members.last? Field.properties.key members with
  | some (.object properties) => some (.ofMembers properties)
  | _ => none

/-- The members that are no fields. -/
def extraMembers (members : List (String × Json)) : List (String × Json) :=
  members.filter fun m => (Field.ofKey? m.1).isNone

/-- The extra fields of a node, given what their values stand for. -/
def extraIn (say : Json → Json) (members : List (String × Json)) : Extra :=
  .ofMembers ((extraMembers members).map fun m => (m.1, say m.2))

/-- The node with the given fields; those that its kind does not have are dropped. -/
def assemble (kind : String) (tag value : Option String) (properties : Option Properties)
    (content : Option (List Node)) (extra : Extra) : Node :=
  match kind with
  | "root" => .root (content.getD []) extra
  | "element" => .element (tag.getD "") properties (content.getD []) extra
  | "text" => .text (value.getD "") extra
  | kind => .other kind value content extra

mutual

/-- The node that a well-formed value stands for, given what the values of extra fields stand for. -/
def built (say : Json → Json) : Json → Node
  | .object members =>
    assemble ((stringIn Field.type.key members).getD "") (stringIn Field.tagName.key members)
      (stringIn Field.value.key members) (propertiesIn members) (builtContent say members)
      (extraIn say members)
  | _ => .root [] .empty

/-- The content of a node; none if it is null. -/
def builtContent (say : Json → Json) : List (String × Json) → Option (List Node)
  | [] => none
  | (key, value) :: rest =>
    if key = Field.children.key then builtChildren say value else builtContent say rest

/-- The nodes of an array. -/
def builtChildren (say : Json → Json) : Json → Option (List Node)
  | .array items => some (builtAll say items)
  | _ => none

/-- The nodes that values stand for. -/
def builtAll (say : Json → Json) : List Json → List Node
  | [] => []
  | item :: rest => built say item :: builtAll say rest

end

/-! ### Fields by their members -/

/-- Whether the reader takes a value for a field. -/
def Field.accepts : Field → Json → Bool
  | .type, j => j.string?.isSome
  | .tagName, j => j.optionalString?.isSome
  | .value, j => j.optionalString?.isSome
  | .properties, j => j.optionalProperties?.isSome
  | .children, j => (childrenOf? j).isSome

/-- No field comes twice or with a value that is refused. -/
structure Admissible (members : List (String × Json)) : Prop where
  once : ∀ field : Field, (Members.all field.key members).length ≤ 1
  accepted : ∀ (field : Field) (j : Json), (field.key, j) ∈ members → field.accepts j = true

theorem Admissible.accepted_of_last? {members : List (String × Json)} (h : Admissible members)
    {field : Field} {j : Json} (hlast : Members.last? field.key members = some j) :
    field.accepts j = true :=
  h.accepted field j (Members.mem_all_iff.1 (Members.mem_all_of_last? hlast))

/-- The fields that members say, if they are admissible. -/
def fieldsSaid (members : List (String × Json)) : Fields where
  type := (Members.last? Field.type.key members).bind string?
  tagName := (Members.last? Field.tagName.key members).bind optionalString?
  value := (Members.last? Field.value.key members).bind optionalString?
  properties := (Members.last? Field.properties.key members).bind optionalProperties?
  children := (Members.last? Field.children.key members).bind childrenOf?
  extra := extraMembers members

@[simp] theorem Field.ofKey?_key (field : Field) : Field.ofKey? field.key = some field := by
  cases field <;> decide

theorem has_fieldsSaid {members : List (String × Json)} (h : Admissible members) (field : Field) :
    (fieldsSaid members).has field = (Members.last? field.key members).isSome := by
  cases hlast : Members.last? field.key members with
  | none => cases field <;> simp [Fields.has, fieldsSaid, hlast]
  | some j =>
    have hj := h.accepted_of_last? hlast
    cases field <;> simpa [Fields.has, fieldsSaid, hlast, Field.accepts] using hj

theorem admissible_concat_iff {members : List (String × Json)} {key : String} {j : Json} :
    Admissible (members ++ [(key, j)]) ↔ Admissible members ∧
      ∀ field, Field.ofKey? key = some field →
        Members.last? field.key members = none ∧ field.accepts j = true := by
  constructor
  · rintro ⟨honce, haccepted⟩
    refine ⟨⟨fun field => ?_, fun field i hi => ?_⟩, fun field hfield => ?_⟩
    · have hlength := honce field
      rw [Members.all_append, List.length_append] at hlength
      omega
    · exact haccepted field i (List.mem_append_left _ hi)
    · obtain rfl := Field.key_of_ofKey? hfield
      have hlength := honce field
      rw [Members.all_append, Members.all_singleton, if_pos rfl, List.length_append,
        List.length_singleton] at hlength
      rw [Members.last?_eq_none_iff]
      refine ⟨List.eq_nil_of_length_eq_zero (by omega), haccepted field j ?_⟩
      exact List.mem_append_right _ (List.mem_singleton.2 rfl)
  · rintro ⟨⟨honce, haccepted⟩, hlast⟩
    refine ⟨fun field => ?_, fun field i hi => ?_⟩
    · rw [Members.all_append, Members.all_singleton]
      by_cases hkey : key = field.key
      · obtain ⟨hnone, -⟩ := hlast field (hkey ▸ Field.ofKey?_key field)
        rw [if_pos hkey, Members.last?_eq_none_iff.1 hnone]
        exact Nat.le_refl 1
      · rw [if_neg hkey, List.append_nil]
        exact honce field
    · rcases List.mem_append.1 hi with hi | hi
      · exact haccepted field i hi
      · cases List.mem_singleton.1 hi
        exact (hlast field (Field.ofKey?_key field)).2

@[simp] theorem Field.key_inj {field other : Field} : field.key = other.key ↔ field = other := by
  constructor
  · intro h
    have hfield := Field.ofKey?_key field
    rw [h, Field.ofKey?_key] at hfield
    exact (Option.some.inj hfield).symm
  · rintro rfl
    rfl

theorem map_eq_some_iff_and {α β : Type} {read : Option α} {set : α → β} {P : Prop} {b c : β}
    (hP : P ↔ read.isSome = true) (hset : ∀ a, read = some a → set a = c) :
    read.map set = some b ↔ P ∧ b = c := by
  rw [hP]
  cases hread : read with
  | none => simp
  | some a =>
    rw [Option.map_some, hset a hread]
    constructor
    · rintro ⟨⟩
      exact ⟨rfl, rfl⟩
    · rintro ⟨-, rfl⟩
      rfl

/-- One more member that the reader takes. -/
theorem add?_fieldsSaid {members : List (String × Json)} (h : Admissible members) {key : String}
    {j : Json} {fields : Fields} :
    (fieldsSaid members).add? key j (childrenOf? j) = some fields ↔
      Admissible (members ++ [(key, j)]) ∧ fields = fieldsSaid (members ++ [(key, j)]) := by
  rw [admissible_concat_iff, Fields.add?]
  cases hkey : Field.ofKey? key with
  | none =>
    have hne : ∀ field : Field, key ≠ field.key := by
      rintro field rfl
      rw [Field.ofKey?_key] at hkey
      cases hkey
    have hsaid : fieldsSaid (members ++ [(key, j)]) =
        { fieldsSaid members with extra := (fieldsSaid members).extra ++ [(key, j)] } := by
      simp [fieldsSaid, Members.last?_concat, hne, extraMembers, hkey]
    rw [hsaid]
    constructor
    · rintro ⟨⟩
      refine ⟨⟨h, ?_⟩, rfl⟩
      rintro field ⟨⟩
    · rintro ⟨-, rfl⟩
      rfl
  | some field =>
    obtain rfl := Field.key_of_ofKey? hkey
    -- a field that is there is refused, whatever its value
    simp only [has_fieldsSaid h]
    cases hlast : Members.last? field.key members with
    | some i => simp [hlast]
    | none =>
      have hextra : extraMembers (members ++ [(field.key, j)]) = extraMembers members := by
        simp [extraMembers, Field.ofKey?_key]
      have hP : (Admissible members ∧ ∀ other, some field = some other →
          Members.last? other.key members = none ∧ other.accepts j = true) ↔
            field.accepts j = true := by
        simp [h, hlast]
      rw [if_neg (by simp)]
      -- of the fields said by the members, the new one alone differs
      cases field <;> refine map_eq_some_iff_and hP fun a ha => ?_ <;>
        simp [fieldsSaid, Members.last?_concat, Field.key_inj, hextra, ha]

theorem fieldsOf?_concat (fields : Fields) (members : List (String × Json)) (key : String)
    (j : Json) : fieldsOf? fields (members ++ [(key, j)]) =
      (fieldsOf? fields members).bind fun found => found.add? key j (childrenOf? j) := by
  rw [fieldsOf?_eq, fieldsOf?_eq, addAll_append_singleton]

/-- The reader takes just the admissible members, and finds the fields that they say. -/
theorem fieldsOf?_none_eq_some_iff {members : List (String × Json)} {fields : Fields} :
    fieldsOf? .none members = some fields ↔ Admissible members ∧ fields = fieldsSaid members := by
  -- fields are added from left to right, so the induction takes the last member off
  induction members using List.reverseRecOn generalizing fields with
  | nil =>
    constructor
    · rintro ⟨⟩
      refine ⟨⟨fun _ => Nat.zero_le 1, fun _ _ hj => absurd hj List.not_mem_nil⟩, rfl⟩
    · rintro ⟨-, rfl⟩
      rfl
  | append_singleton members m ih =>
    obtain ⟨key, j⟩ := m
    rw [fieldsOf?_concat, Option.bind_eq_some_iff]
    constructor
    · rintro ⟨found, hfound, hadd⟩
      obtain ⟨hmembers, rfl⟩ := ih.1 hfound
      exact (add?_fieldsSaid hmembers).1 hadd
    · intro h
      have hmembers := (admissible_concat_iff.1 h.1).1
      exact ⟨_, ih.2 ⟨hmembers, rfl⟩, (add?_fieldsSaid hmembers).2 h⟩

/-! ### Nodes by their fields -/

/-- The fields make a node if they have what its kind needs. -/
theorem Fields.toNodeOfKind_eq_ok_iff {fields : Fields} {kind : String} {x : Extra} {node : Node} :
    fields.toNodeOfKind kind x = .ok node ↔
      (kind = "element" → ∃ tag, fields.tagName.join = some tag ∧ tag ≠ "") ∧
      (kind = "text" → ∃ value, fields.value.join = some value) ∧
      node = assemble kind fields.tagName.join fields.value.join fields.properties.join
        fields.children.join x := by
  unfold toNodeOfKind
  dsimp only
  -- a root, an element, a text and a node of another kind
  split
  · simp [assemble, eq_comm]
  · cases htag : fields.tagName.join with
    | none => simp
    | some tag =>
      by_cases hempty : tag = ""
      · simp [hempty]
      · simp [hempty, assemble, eq_comm]
  · cases hvalue : fields.value.join with
    | none => simp
    | some value => simp [assemble, eq_comm]
  · next hroot helement htext =>
    have hother : assemble kind fields.tagName.join fields.value.join fields.properties.join
        fields.children.join x = .other kind fields.value.join fields.children.join x := by
      unfold assemble
      split <;> simp_all
    rw [hother]
    constructor
    · rintro ⟨⟩
      exact ⟨fun hkind => absurd hkind helement, fun hkind => absurd hkind htext, rfl⟩
    · rintro ⟨-, -, rfl⟩
      rfl

theorem Fields.toNode_eq_some_iff {fields : Fields} {node : Node} :
    fields.toNode.toOption = some node ↔ ∃ kind, fields.type = some kind ∧
      (∀ m ∈ fields.extra, ∃ v, resolve m.2 = .ok v) ∧
      fields.toNodeOfKind kind
        (.ofMembers (fields.extra.map fun m => (m.1, m.2.resolved))) = .ok node := by
  rw [toOption_eq_some_iff, toNode_eq_ok_iff]
  simp only [resolveMembers_eq_ok_iff]
  constructor
  · rintro ⟨kind, _, htype, ⟨hall, rfl⟩, hmade⟩
    exact ⟨kind, htype, hall, hmade⟩
  · rintro ⟨kind, htype, hall, hmade⟩
    exact ⟨kind, _, htype, ⟨hall, rfl⟩, hmade⟩

/-! ### Values by the grammar -/

theorem wellFormed_object_iff {members : List (String × Json)} :
    WellFormed (.object members) ↔ (∃ kind, FieldsOfKind kind members) ∧
      ∀ items, (Field.children.key, .array items) ∈ members → ∀ item ∈ items, WellFormed item := by
  constructor
  · rintro ⟨hfields, hchildren⟩
    exact ⟨⟨_, hfields⟩, hchildren⟩
  · rintro ⟨⟨kind, hfields⟩, hchildren⟩
    exact .object hfields hchildren

theorem resolvable_object_iff {members : List (String × Json)} :
    Resolvable (.object members) ↔ (∀ m ∈ extraMembers members, ∃ v, resolve m.2 = .ok v) ∧
      ∀ items, (Field.children.key, .array items) ∈ members → ∀ item ∈ items, Resolvable item := by
  have hextra : (∀ m ∈ extraMembers members, ∃ v, resolve m.2 = .ok v) ↔
      ∀ m ∈ members, Field.ofKey? m.1 = none → ∃ v, resolve m.2 = .ok v := by
    simp only [extraMembers, List.mem_filter, Option.isNone_iff_eq_none, and_imp]
  rw [hextra]
  constructor
  · rintro ⟨hextra, hchildren⟩
    exact ⟨hextra, hchildren⟩
  · rintro ⟨hextra, hchildren⟩
    exact .object hextra hchildren

theorem builtContent_eq (say : Json → Json) (members : List (String × Json)) :
    builtContent say members =
      (Members.all Field.children.key members).head?.bind (builtChildren say) := by
  induction members with
  | nil => rfl
  | cons head rest ih =>
    obtain ⟨key, j⟩ := head
    rw [builtContent, Members.all_cons]
    by_cases hkey : key = Field.children.key
    · rw [if_pos hkey, if_pos hkey]
      rfl
    · rw [if_neg hkey, if_neg hkey, ih, List.nil_append]

section Once

variable {key : String} {members : List (String × Json)}
  (h : (Members.all key members).length ≤ 1)
include h

theorem all_eq_nil_or_singleton :
    Members.all key members = [] ∨ ∃ j, Members.all key members = [j] := by
  cases hall : Members.all key members with
  | nil => exact .inl rfl
  | cons j rest =>
    rw [hall, List.length_cons] at h
    have hrest : rest = [] := List.eq_nil_of_length_eq_zero (by omega)
    exact .inr ⟨j, by rw [hrest]⟩

/-- A value that comes once is all there is under its key. -/
theorem all_eq_singleton_iff {j : Json} :
    Members.all key members = [j] ↔ (key, j) ∈ members := by
  rw [← Members.mem_all_iff]
  rcases all_eq_nil_or_singleton h with hall | ⟨i, hall⟩
  · simp [hall]
  · simp [hall, eq_comm]

theorem last?_eq_some_iff {j : Json} :
    Members.last? key members = some j ↔ (key, j) ∈ members := by
  rw [← Members.mem_all_iff, Members.last?]
  rcases all_eq_nil_or_singleton h with hall | ⟨i, hall⟩
  · simp [hall]
  · simp [hall, eq_comm]

theorem stringIn_eq_some_iff {s : String} :
    stringIn key members = some s ↔ (key, .string s) ∈ members := by
  rw [stringIn, Option.bind_eq_some_iff, ← last?_eq_some_iff h]
  constructor
  · rintro ⟨j, hj, hs⟩
    cases j with
    | string => cases hs; exact hj
    | _ => cases hs
  · exact fun hs => ⟨_, hs, rfl⟩

theorem head?_all : (Members.all key members).head? = Members.last? key members := by
  rw [Members.last?]
  rcases all_eq_nil_or_singleton h with hall | ⟨i, hall⟩
  · rw [hall]
    rfl
  · rw [hall]
    rfl

end Once

/-- The value is read as a node just if it is well formed with embedded texts that can be read, and
then as the node that it stands for. -/
def ReadAsBuilt (j : Json) : Prop :=
  ∀ node, ofJson? j = some node ↔ WellFormed j ∧ Resolvable j ∧ node = built resolved j

theorem nodesOf?_eq_some_iff {items : List Json} (h : ∀ item ∈ items, ReadAsBuilt item)
    {nodes : List Node} : nodesOf? items = some nodes ↔
      (∀ item ∈ items, WellFormed item ∧ Resolvable item) ∧ nodes = builtAll resolved items := by
  induction items generalizing nodes with
  | nil =>
    constructor
    · rintro ⟨⟩
      exact ⟨fun item hitem => absurd hitem List.not_mem_nil, rfl⟩
    · rintro ⟨-, rfl⟩
      rfl
  | cons item rest ih =>
    obtain ⟨hitem, hrest⟩ := List.forall_mem_cons.1 h
    rw [nodesOf?, Option.bind_eq_some_iff, List.forall_mem_cons]
    constructor
    · rintro ⟨node, hnode, hnodes⟩
      obtain ⟨others, hothers, rfl⟩ := Option.map_eq_some_iff.1 hnodes
      obtain ⟨hwell, hresolvable, rfl⟩ := (hitem node).1 hnode
      obtain ⟨hall, rfl⟩ := (ih hrest).1 hothers
      exact ⟨⟨⟨hwell, hresolvable⟩, hall⟩, by rw [builtAll]⟩
    · rintro ⟨⟨⟨hwell, hresolvable⟩, hall⟩, rfl⟩
      refine ⟨_, (hitem _).2 ⟨hwell, hresolvable, rfl⟩, ?_⟩
      rw [(ih hrest).2 ⟨hall, rfl⟩, builtAll]
      rfl

section Object

variable {members : List (String × Json)}
  (below : ∀ items, (Field.children.key, .array items) ∈ members → ∀ item ∈ items, ReadAsBuilt item)

include below in
/-- Of the content, all nodes have to be well formed. -/
theorem accepts_children_iff {j : Json} (hj : (Field.children.key, j) ∈ members) :
    Field.children.accepts j = true ↔ j.IsOptionalArray ∧
      ∀ items, j = .array items → ∀ item ∈ items, WellFormed item ∧ Resolvable item := by
  cases j with
  | array items =>
    rw [Field.accepts, childrenOf?, Option.isSome_map, Option.isSome_iff_exists]
    simp only [nodesOf?_eq_some_iff (below items hj), exists_and_left, exists_eq, and_true]
    constructor
    · rintro h
      refine ⟨.inr ⟨items, rfl⟩, ?_⟩
      rintro _ ⟨⟩
      exact h
    · exact fun h => h.2 items rfl
  | null => simp [Field.accepts, childrenOf?, IsOptionalArray]
  | _ => simp [Field.accepts, childrenOf?, IsOptionalArray]

theorem join_tagName_fieldsSaid :
    (fieldsSaid members).tagName.join = stringIn Field.tagName.key members := by
  rw [fieldsSaid, stringIn]
  cases Members.last? Field.tagName.key members with
  | none => rfl
  | some j => exact join_optionalString? j

theorem join_value_fieldsSaid :
    (fieldsSaid members).value.join = stringIn Field.value.key members := by
  rw [fieldsSaid, stringIn]
  cases Members.last? Field.value.key members with
  | none => rfl
  | some j => exact join_optionalString? j

/-- The property map that the reader finds is the one that the members stand for. -/
theorem join_properties_fieldsSaid (h : Admissible members) :
    (fieldsSaid members).properties.join = propertiesIn members := by
  rw [fieldsSaid, propertiesIn]
  cases hlast : Members.last? Field.properties.key members with
  | none => rfl
  | some j =>
    have hj := h.accepted_of_last? hlast
    cases j with
    | object ps =>
      obtain ⟨p, hp⟩ := Option.isSome_iff_exists.1 hj
      obtain ⟨-, rfl⟩ := optionalProperties?_object_eq_some_iff.1 hp
      exact congrArg Option.join hp
    | null => rfl
    | _ => cases hj

include below in
/-- The content that the reader finds is the one that the members stand for. -/
theorem join_children_fieldsSaid (h : Admissible members) :
    (fieldsSaid members).children.join = builtContent resolved members := by
  rw [builtContent_eq, head?_all (h.once .children), fieldsSaid]
  cases hlast : Members.last? Field.children.key members with
  | none => rfl
  | some j =>
    have hmem := Members.mem_all_iff.1 (Members.mem_all_of_last? hlast)
    have hj := h.accepted .children j hmem
    cases j with
    | array items =>
      have hall := ((accepts_children_iff below hmem).1 hj).2 items rfl
      have hnodes := (nodesOf?_eq_some_iff (below items hmem)).2 ⟨hall, rfl⟩
      have hread : childrenOf? (.array items) = some (some (builtAll resolved items)) :=
        congrArg (Option.map some) hnodes
      exact congrArg Option.join hread
    | null => rfl
    | _ => cases hj

include below in
/-- Members that the reader takes are as the grammar asks, if the kind has what it needs. -/
theorem fieldsOfKind_of_admissible {kind : String} (h : Admissible members)
    (htype : stringIn Field.type.key members = some kind)
    (helement : kind = "element" → ∃ tag, stringIn Field.tagName.key members = some tag ∧ tag ≠ "")
    (htext : kind = "text" → ∃ value, stringIn Field.value.key members = some value) :
    FieldsOfKind kind members where
  type := (all_eq_singleton_iff (h.once .type)).2 ((stringIn_eq_some_iff (h.once .type)).1 htype)
  once := h.once
  tagName j hj := isSome_optionalString?_iff.1 (h.accepted .tagName j hj)
  value j hj := isSome_optionalString?_iff.1 (h.accepted .value j hj)
  properties j hj := isSome_optionalProperties?_iff.1 (h.accepted .properties j hj)
  children j hj := ((accepts_children_iff below hj).1 (h.accepted .children j hj)).1
  element hkind := by
    obtain ⟨tag, htag, hne⟩ := helement hkind
    exact ⟨tag, (stringIn_eq_some_iff (h.once .tagName)).1 htag, hne⟩
  text hkind := by
    obtain ⟨value, hvalue⟩ := htext hkind
    exact ⟨value, (stringIn_eq_some_iff (h.once .value)).1 hvalue⟩

include below in
/-- The reader takes the members that the grammar asks for. -/
theorem admissible_of_fieldsOfKind {kind : String} (h : FieldsOfKind kind members)
    (hchildren : ∀ items, (Field.children.key, .array items) ∈ members →
      ∀ item ∈ items, WellFormed item ∧ Resolvable item) : Admissible members := by
  refine ⟨h.once, fun field j hj => ?_⟩
  cases field with
  | type =>
    -- there is one kind only, which is a string
    have hall := (all_eq_singleton_iff (h.once .type)).2 hj
    rw [h.type] at hall
    cases hall
    rfl
  | tagName => exact isSome_optionalString?_iff.2 (h.tagName j hj)
  | value => exact isSome_optionalString?_iff.2 (h.value j hj)
  | properties => exact isSome_optionalProperties?_iff.2 (h.properties j hj)
  | children =>
    refine (accepts_children_iff below hj).2 ⟨h.children j hj, ?_⟩
    rintro items rfl
    exact hchildren items hj

include below in
/-- What the reader checks of the fields is what the grammar asks for. -/
theorem admissible_iff_fieldsOfKind {kind : String} :
    (Admissible members ∧ (fieldsSaid members).type = some kind ∧
      (kind = "element" → ∃ tag, (fieldsSaid members).tagName.join = some tag ∧ tag ≠ "") ∧
      (kind = "text" → ∃ value, (fieldsSaid members).value.join = some value)) ↔
    FieldsOfKind kind members ∧ ∀ items, (Field.children.key, .array items) ∈ members →
      ∀ item ∈ items, WellFormed item ∧ Resolvable item := by
  rw [join_tagName_fieldsSaid, join_value_fieldsSaid]
  constructor
  · rintro ⟨h, htype, helement, htext⟩
    refine ⟨fieldsOfKind_of_admissible below h htype helement htext, fun items hitems => ?_⟩
    exact ((accepts_children_iff below hitems).1 (h.accepted .children _ hitems)).2 items rfl
  · rintro ⟨h, hchildren⟩
    have hkind : (Field.type.key, .string kind) ∈ members :=
      (all_eq_singleton_iff (h.once .type)).1 h.type
    refine ⟨admissible_of_fieldsOfKind below h hchildren,
      (stringIn_eq_some_iff (h.once .type)).2 hkind, fun hk => ?_, fun hk => ?_⟩
    · obtain ⟨tag, htag, hne⟩ := h.element hk
      exact ⟨tag, (stringIn_eq_some_iff (h.once .tagName)).2 htag, hne⟩
    · obtain ⟨value, hvalue⟩ := h.text hk
      exact ⟨value, (stringIn_eq_some_iff (h.once .value)).2 hvalue⟩

include below in
/-- The step of the recursion over values: an object is read as what it stands for if the nodes in its
content are. -/
theorem readAsBuilt_object : ReadAsBuilt (.object members) := by
  intro node
  -- the fields are found first, and then make the node
  have hread : ofJson? (.object members) = some node ↔
      Admissible members ∧ (fieldsSaid members).toNode.toOption = some node := by
    simp only [ofJson?, Option.bind_eq_some_iff, fieldsOf?_none_eq_some_iff]
    constructor
    · rintro ⟨fields, ⟨h, rfl⟩, hnode⟩
      exact ⟨h, hnode⟩
    · exact fun h => ⟨_, ⟨h.1, rfl⟩, h.2⟩
  -- made of the fields that are found, it is the node that the members stand for
  have hbuilt : ∀ kind, Admissible members → (fieldsSaid members).type = some kind →
      assemble kind (fieldsSaid members).tagName.join (fieldsSaid members).value.join
        (fieldsSaid members).properties.join (fieldsSaid members).children.join
        (.ofMembers ((fieldsSaid members).extra.map fun m => (m.1, m.2.resolved))) =
      built resolved (.object members) := by
    intro kind h htype
    have hkind : stringIn Field.type.key members = some kind := htype
    rw [built, hkind, join_tagName_fieldsSaid, join_value_fieldsSaid, join_properties_fieldsSaid h,
      join_children_fieldsSaid below h]
    rfl
  rw [hread, Fields.toNode_eq_some_iff, wellFormed_object_iff, resolvable_object_iff]
  simp only [Fields.toNodeOfKind_eq_ok_iff]
  constructor
  · rintro ⟨h, kind, htype, hextra, helement, htext, rfl⟩
    obtain ⟨hfields, hchildren⟩ :=
      (admissible_iff_fieldsOfKind below).1 ⟨h, htype, helement, htext⟩
    exact ⟨⟨⟨kind, hfields⟩, fun items hitems item hitem => (hchildren items hitems item hitem).1⟩,
      ⟨hextra, fun items hitems item hitem => (hchildren items hitems item hitem).2⟩,
      hbuilt kind h htype⟩
  · rintro ⟨⟨⟨kind, hfields⟩, hwell⟩, ⟨hextra, hresolvable⟩, rfl⟩
    obtain ⟨h, htype, helement, htext⟩ := (admissible_iff_fieldsOfKind below).2 ⟨hfields,
      fun items hitems item hitem =>
        ⟨hwell items hitems item hitem, hresolvable items hitems item hitem⟩⟩
    exact ⟨h, kind, htype, hextra, helement, htext, (hbuilt kind h htype).symm⟩

end Object

/-- **The nodes that are read are the well-formed values**, as long as their embedded texts can be
read, and each is read as the tree that it stands for. -/
theorem ofJson?_eq_some_iff : ∀ j : Json, ReadAsBuilt j
  | .object members => readAsBuilt_object fun items hmem item hitem => ofJson?_eq_some_iff item
  | .null | .bool _ | .integer _ | .float _ | .string _ | .array _ => by
    intro node
    exact ⟨fun h => (nomatch h), fun h => nomatch h.1⟩
termination_by j => sizeOf j
decreasing_by exact sizeOf_lt_of_mem_items hmem hitem

end Node

end DocTree
