import DocTree.Proofs.Node.Accepted

/-!
# Trees with other numbers

What is written for a double may be read as another one.  Whether a value is a tree does not depend on
that: its fields are checked for their types, and a double is a double (`Node.wellFormed_mapFloats_iff`),
and a text that is embedded in an extra field is a string (`Json.exists_resolve_mapFloats_iff`).  So
what is written of a value is read as a tree just if the value is one
(`Root.exists_parse_render_iff`), though perhaps as a tree with other numbers.
-/

namespace DocTree

open Json

namespace Json

variable {change : Binary64.Finite → Binary64.Finite}

/-! ### Types of values -/

@[simp] theorem mapFloats_eq_null_iff {j : Json} : j.mapFloats change = .null ↔ j = .null := by
  cases j <;> simp [mapFloats]

@[simp] theorem mapFloats_eq_string_iff {j : Json} {s : String} :
    j.mapFloats change = .string s ↔ j = .string s := by
  cases j <;> simp [mapFloats]

theorem mapFloats_eq_array_iff {j : Json} {items : List Json} :
    j.mapFloats change = .array items ↔
      ∃ before, j = .array before ∧ items = before.map (mapFloats change) := by
  cases j <;> simp [mapFloats, mapFloatsItems_eq_map, eq_comm]

theorem isOptionalString_mapFloats_iff {j : Json} :
    (j.mapFloats change).IsOptionalString ↔ j.IsOptionalString := by
  simp [IsOptionalString]

theorem isOptionalArray_mapFloats_iff {j : Json} :
    (j.mapFloats change).IsOptionalArray ↔ j.IsOptionalArray := by
  cases j <;> simp [IsOptionalArray, mapFloats]

theorem isPropertyItem_mapFloats (j : Json) :
    (j.mapFloats change).isPropertyItem = j.isPropertyItem := by
  cases j <;> simp [mapFloats, isPropertyItem]

theorem isPropertyValue_mapFloats (j : Json) :
    (j.mapFloats change).isPropertyValue = j.isPropertyValue := by
  cases j with
  | array items =>
    rw [mapFloats, isPropertyValue, isPropertyValue, mapFloatsItems_eq_map, List.all_map]
    exact congrArg items.all (funext isPropertyItem_mapFloats)
  | _ => simp [mapFloats, isPropertyValue]

theorem isOptionalProperties_mapFloats_iff {j : Json} :
    (j.mapFloats change).IsOptionalProperties ↔ j.IsOptionalProperties := by
  cases j with
  | object members =>
    simp [IsOptionalProperties, mapFloats, mapFloatsMembers_eq_map, isPropertyValue_mapFloats]
  | _ => simp [IsOptionalProperties, mapFloats]

/-! ### Embedded texts -/

theorem embedded?_mapFloatsMembers (members : List (String × Json)) :
    embedded? (mapFloatsMembers change members) = (embedded? members).map (mapFloats change) := by
  cases members with
  | nil => rfl
  | cons m rest =>
    obtain ⟨key, value⟩ := m
    rw [mapFloatsMembers, embedded?, embedded?]
    split <;> rfl

theorem isOk_map {ε α β : Type} (x : Except ε α) (f : α → β) :
    (do return f (← x) : Except ε β).isOk = x.isOk := by
  cases x <;> rfl

theorem isOk_map₂ {ε α β γ : Type} (x : Except ε α) (y : Except ε β) (f : α → β → γ) :
    (do return f (← x) (← y) : Except ε γ).isOk = (x.isOk && y.isOk) := by
  cases x <;> cases y <;> rfl

mutual

/-- Whether embedded texts can be read does not depend on the doubles beside them. -/
theorem isOk_resolve_mapFloats : ∀ j : Json,
    (resolve (j.mapFloats change)).isOk = (resolve j).isOk
  | .array items => by
    rw [mapFloats, resolve, resolve, isOk_map, isOk_map, isOk_resolveItems_mapFloats items]
  | .object members => by
    have hlength : (mapFloatsMembers change members).length = members.length := by
      rw [mapFloatsMembers_eq_map, List.length_map]
    rw [mapFloats, resolve, resolve, embedded?_mapFloatsMembers, hlength]
    cases hfound : embedded? members with
    | none =>
      show (do return object (← resolveMembers _) : Except _ Json).isOk =
        (do return object (← resolveMembers _) : Except _ Json).isOk
      rw [isOk_map, isOk_map, isOk_resolveMembers_mapFloats members]
    | some found =>
      -- a text is what it was, and any other value still is none
      cases found with
      | string text => rfl
      | _ => rfl
  | .null | .bool _ | .integer _ | .float _ | .string _ => by
    simp [mapFloats, resolve, pure, Except.pure, Except.isOk, Except.toBool]

theorem isOk_resolveItems_mapFloats : ∀ items : List Json,
    (resolveItems (mapFloatsItems change items)).isOk = (resolveItems items).isOk
  | [] => rfl
  | item :: rest => by
    rw [mapFloatsItems, resolveItems, resolveItems, isOk_map₂, isOk_map₂,
      isOk_resolve_mapFloats item, isOk_resolveItems_mapFloats rest]

theorem isOk_resolveMembers_mapFloats : ∀ members : List (String × Json),
    (resolveMembers (mapFloatsMembers change members)).isOk = (resolveMembers members).isOk
  | [] => rfl
  | (key, value) :: rest => by
    rw [mapFloatsMembers, resolveMembers, resolveMembers,
      isOk_map₂ (resolve _) (resolveMembers _) fun v vs => (key, v) :: vs,
      isOk_map₂ (resolve _) (resolveMembers _) fun v vs => (key, v) :: vs,
      isOk_resolve_mapFloats value, isOk_resolveMembers_mapFloats rest]

end

theorem exists_resolve_mapFloats_iff {j : Json} :
    (∃ v, resolve (j.mapFloats change) = .ok v) ↔ ∃ v, resolve j = .ok v := by
  have hisOk (x : Except EmbeddedFault Json) : (∃ v, x = .ok v) ↔ x.isOk = true := by
    cases x <;> simp [Except.isOk, Except.toBool]
  rw [hisOk, hisOk, isOk_resolve_mapFloats]

end Json

namespace Node

variable {change : Binary64.Finite → Binary64.Finite}

/-! ### The grammar -/

section Members

variable {members : List (String × Json)} {key : String}

/-- The members with every double in them changed. -/
theorem mem_mapFloatsMembers_iff {j : Json} : (key, j) ∈ mapFloatsMembers change members ↔
    ∃ before, (key, before) ∈ members ∧ before.mapFloats change = j := by
  rw [mapFloatsMembers_eq_map, List.mem_map]
  constructor
  · rintro ⟨⟨name, before⟩, hmem, heq⟩
    cases heq
    exact ⟨before, hmem, rfl⟩
  · rintro ⟨before, hmem, rfl⟩
    exact ⟨_, hmem, rfl⟩

theorem forall_mem_mapFloatsMembers_iff {P : Json → Prop}
    (h : ∀ j : Json, P (j.mapFloats change) ↔ P j) :
    (∀ j, (key, j) ∈ mapFloatsMembers change members → P j) ↔ ∀ j, (key, j) ∈ members → P j := by
  constructor
  · exact fun hall j hj => (h j).1 (hall _ (mem_mapFloatsMembers_iff.2 ⟨j, hj, rfl⟩))
  · rintro hall j hj
    obtain ⟨before, hbefore, rfl⟩ := mem_mapFloatsMembers_iff.1 hj
    exact (h before).2 (hall before hbefore)

theorem string_mem_mapFloatsMembers_iff {s : String} :
    (key, .string s) ∈ mapFloatsMembers change members ↔ (key, .string s) ∈ members := by
  rw [mem_mapFloatsMembers_iff]
  simp

theorem fieldsOfKind_mapFloats_iff {kind : String} :
    FieldsOfKind kind (mapFloatsMembers change members) ↔ FieldsOfKind kind members := by
  have hall (field : Field) : Members.all field.key (mapFloatsMembers change members) =
      (Members.all field.key members).map (mapFloats change) := by
    rw [mapFloatsMembers_eq_map, Members.all_map]
  have htype : Members.all Field.type.key (mapFloatsMembers change members) = [.string kind] ↔
      Members.all Field.type.key members = [.string kind] := by
    rw [hall]
    simp [List.map_eq_singleton_iff]
  have hstring (field : Field) := @forall_mem_mapFloatsMembers_iff change members field.key _
    fun _ => isOptionalString_mapFloats_iff
  have hproperties := @forall_mem_mapFloatsMembers_iff change members Field.properties.key _
    fun _ => isOptionalProperties_mapFloats_iff
  have hchildren := @forall_mem_mapFloatsMembers_iff change members Field.children.key _
    fun _ => isOptionalArray_mapFloats_iff
  constructor
  · intro h
    refine ⟨htype.1 h.type, fun field => ?_, (hstring .tagName).1 h.tagName,
      (hstring .value).1 h.value, hproperties.1 h.properties, hchildren.1 h.children, ?_, ?_⟩
    · exact (List.length_map _).symm.trans_le ((congrArg _ (hall field)).symm.trans_le (h.once field))
    · simpa only [string_mem_mapFloatsMembers_iff] using h.element
    · simpa only [string_mem_mapFloatsMembers_iff] using h.text
  · intro h
    refine ⟨htype.2 h.type, fun field => ?_, (hstring .tagName).2 h.tagName,
      (hstring .value).2 h.value, hproperties.2 h.properties, hchildren.2 h.children, ?_, ?_⟩
    · exact (congrArg _ (hall field)).trans_le ((List.length_map _).trans_le (h.once field))
    · simpa only [string_mem_mapFloatsMembers_iff] using h.element
    · simpa only [string_mem_mapFloatsMembers_iff] using h.text

/-- What holds of the content holds of it with every double changed, if it does so item by item. -/
theorem forall_content_mapFloats_iff {P : Json → Prop}
    (h : ∀ items, (key, .array items) ∈ members → ∀ item ∈ items,
      (P (item.mapFloats change) ↔ P item)) :
    (∀ items, (key, .array items) ∈ mapFloatsMembers change members → ∀ item ∈ items, P item) ↔
      ∀ items, (key, .array items) ∈ members → ∀ item ∈ items, P item := by
  constructor
  · intro hall items hitems item hitem
    refine (h items hitems item hitem).1 (hall (items.map (mapFloats change)) ?_ _ ?_)
    · refine mem_mapFloatsMembers_iff.2 ⟨_, hitems, ?_⟩
      rw [mapFloats, mapFloatsItems_eq_map]
    · exact List.mem_map_of_mem hitem
  · intro hall items hitems item hitem
    obtain ⟨before, hbefore, heq⟩ := mem_mapFloatsMembers_iff.1 hitems
    obtain ⟨others, rfl, rfl⟩ := mapFloats_eq_array_iff.1 heq
    obtain ⟨other, hother, rfl⟩ := List.mem_map.1 hitem
    exact (h others hbefore other hother).2 (hall others hbefore other hother)

theorem extra_mapFloatsMembers_iff :
    (∀ m ∈ extraMembers (mapFloatsMembers change members), ∃ v, resolve m.2 = .ok v) ↔
      ∀ m ∈ extraMembers members, ∃ v, resolve m.2 = .ok v := by
  have hextra : extraMembers (mapFloatsMembers change members) =
      (extraMembers members).map fun m => (m.1, m.2.mapFloats change) := by
    rw [mapFloatsMembers_eq_map, extraMembers, List.filter_map]
    rfl
  rw [hextra, List.forall_mem_map]
  simp only [exists_resolve_mapFloats_iff]

end Members

theorem wellFormed_mapFloats_iff : ∀ j : Json, WellFormed (j.mapFloats change) ↔ WellFormed j
  | .object members => by
    rw [mapFloats, wellFormed_object_iff, wellFormed_object_iff,
      forall_content_mapFloats_iff fun items hmem item hitem => wellFormed_mapFloats_iff item]
    simp only [fieldsOfKind_mapFloats_iff]
  | .array _ | .float _ => by
    rw [mapFloats]
    exact ⟨fun h => (nomatch h), fun h => nomatch h⟩
  | .null | .bool _ | .integer _ | .string _ => by simp only [mapFloats]
termination_by j => sizeOf j
decreasing_by exact sizeOf_lt_of_mem_items hmem hitem

theorem resolvable_mapFloats_iff : ∀ j : Json, Resolvable (j.mapFloats change) ↔ Resolvable j
  | .object members => by
    rw [mapFloats, resolvable_object_iff, resolvable_object_iff, extra_mapFloatsMembers_iff,
      forall_content_mapFloats_iff fun items hmem item hitem => resolvable_mapFloats_iff item]
  | .array _ | .float _ => by
    rw [mapFloats]
    exact ⟨fun h => (nomatch h), fun h => nomatch h⟩
  | .null | .bool _ | .integer _ | .string _ => by simp only [mapFloats]
termination_by j => sizeOf j
decreasing_by exact sizeOf_lt_of_mem_items hmem hitem

theorem kindIn?_mapFloats (j : Json) : kindIn? (j.mapFloats change) = kindIn? j := by
  cases j with
  | object members =>
    have hstring (i : Json) : (i.mapFloats change).string? = i.string? := by
      cases i <;> simp [mapFloats, string?]
    rw [mapFloats, kindIn?, kindIn?, stringIn, stringIn, Members.last?, Members.last?,
      mapFloatsMembers_eq_map, Members.all_map, List.getLast?_map, Option.bind_map]
    exact congrArg _ (funext hstring)
  | _ => simp [mapFloats, kindIn?]

end Node

/-! ### Whole texts -/

namespace Root

/-- A value is a tree if it is a well-formed root with embedded texts that can be read. -/
theorem exists_ofJson?_iff {j : Json} : (∃ r, Root.ofJson? j = some r) ↔
    Node.WellFormed j ∧ Node.Resolvable j ∧ Node.kindIn? j = some "root" := by
  simp only [Root.ofJson?_eq_some_iff, Node.ofJson?_eq_some_iff _ _, exists_and_left]
  constructor
  · rintro ⟨hwell, hresolvable, hroot⟩
    exact ⟨hwell, hresolvable, (Node.exists_built_eq_root_iff hwell).1 hroot⟩
  · rintro ⟨hwell, hresolvable, hkind⟩
    exact ⟨hwell, hresolvable, (Node.exists_built_eq_root_iff hwell).2 hkind⟩

/-- **What is written of a value is read as a tree just if the value is one**, whatever double is read
for what is written for one. -/
theorem exists_parse_render_iff {j : Json} (h : j.nesting ≤ maxNesting) :
    (∃ r, Root.parse j.render = .ok r) ↔ ∃ r, Root.ofJson? j = some r := by
  have hparse (r : Root) : Root.parse j.render = .ok r ↔ Root.ofJson? j.asRead = some r := by
    rw [parse_eq_ok_iff, readAll_render_asRead h]
    simp
  simp only [hparse]
  rw [exists_ofJson?_iff, exists_ofJson?_iff, asRead, Node.wellFormed_mapFloats_iff,
    Node.resolvable_mapFloats_iff, Node.kindIn?_mapFloats]

/-- What is written of a tree is read as a tree just if there is something that comes back of it. -/
theorem exists_parse_iff_reread {r : Root} {out : Json} (hread : Node.ofJson? out = r.toNode.reread)
    (h : out.nesting ≤ maxNesting) :
    (∃ r', Root.parse out.render = .ok r') ↔ ∃ r' : Root, r.toNode.reread = some r'.toNode := by
  simp only [exists_parse_render_iff h, Root.ofJson?_eq_some_iff, hread]

/-- What is written of a plain tree is read as a tree. -/
theorem exists_parse_of_plain {r : Root} {out : Json} (hread : Node.ofJson? out = r.toNode.reread)
    (hplain : r.toNode.Plain) (h : out.nesting ≤ maxNesting) :
    ∃ r', Root.parse out.render = .ok r' :=
  (exists_parse_iff_reread hread h).2
    ⟨r.unsignedZeros, by rw [toNode_unsignedZeros, Node.reread_of_plain _ hplain]⟩

end Root

end DocTree
