import DocTree.Proofs.Node.RoundTrip

/-!
# What is read is faithful

Whatever tree a text says, it is faithful (`Node.faithful_of_ofJson?`): what a node lacks is an error,
every other field is sorted out before, and every number that JSON can write is finite.  And where no
extra field embeds a text, the tree nests no deeper than the text, but for empty content that the
text left out (`Node.leastNesting_le_nesting`).
-/

namespace DocTree

open Json

/-! ### Properties -/

theorem Json.exists_of_mem_mapM {α : Type} {content : Json → Option α} {js : List Json} {as : List α}
    (h : js.mapM content = some as) {a : α} (ha : a ∈ as) : ∃ j ∈ js, content j = some a := by
  induction js generalizing as with
  | nil =>
    cases h
    cases ha
  | cons j rest ih =>
    obtain ⟨b, bs, hb, hbs, rfl⟩ := mapM_cons_eq_some_iff.1 h
    rcases List.mem_cons.1 ha with rfl | ha
    · exact ⟨j, List.mem_cons_self, hb⟩
    · obtain ⟨i, hi, hia⟩ := ih hbs ha
      exact ⟨i, List.mem_cons_of_mem _ hi, hia⟩

/-- An integer of 64 bits is no infinite double. -/
theorem Binary64.isFinite_ofInt {n : Int} (h : n.natAbs < 2 ^ 64) : (Binary64.ofInt n).IsFinite := by
  have hsteps : n.natAbs * 10 ^ (0 : Int).toNat * Binary64.stepsPerUnit / 10 ^ (-0 : Int).toNat <
      2 ^ (64 + Binary64.unitExponent) := by
    rw [Int.neg_zero, Int.toNat_zero, Nat.pow_zero, Nat.div_one, Nat.mul_one, Nat.pow_add]
    unfold Binary64.stepsPerUnit
    exact Nat.mul_lt_mul_of_pos_right h (Nat.two_pow_pos _)
  have hfits := Binary64.Finite.representable_roundSteps_of_lt hsteps (by decide)
  have hread : Binary64.Finite.ofDecimal? (n < 0) n.natAbs 0 = some ⟨decide (n < 0), _, hfits⟩ := by
    rw [Binary64.Finite.ofDecimal?_eq_ofRatio?, Binary64.Finite.ofRatio?_eq_some_iff]
    exact ⟨rfl, rfl⟩
  refine ⟨⟨decide (n < 0), _, hfits⟩, ?_⟩
  unfold Binary64.ofInt
  rw [hread]

namespace PropertyValue

theorem isFinite_of_numberOfJson? {j : Json} {x : Binary64} (h : numberOfJson? j = some x) :
    x.IsFinite := by
  cases j with
  | integer n =>
    cases h
    have hrange := n.inRange
    exact Binary64.isFinite_ofInt (by omega)
  | float y =>
    cases h
    exact ⟨y, rfl⟩
  | _ => cases h

theorem isFinite_of_itemOfJson? {j : Json} {item : PropertyItem} (h : itemOfJson? j = some item) :
    item.IsFinite := by
  rintro x rfl
  unfold itemOfJson? at h
  split at h
  next => cases h
  next =>
    obtain ⟨y, hy, hyx⟩ := Option.map_eq_some_iff.1 h
    cases hyx
    exact isFinite_of_numberOfJson? hy

theorem isFinite_of_ofJson? {j : Json} {value : PropertyValue} (h : ofJson? j = some value) :
    value.IsFinite := by
  unfold ofJson? at h
  split at h
  next => cases h; trivial
  next => cases h; trivial
  next => cases h; trivial
  next items =>
    obtain ⟨list, hlist, rfl⟩ := Option.map_eq_some_iff.1 h
    intro item hitem
    obtain ⟨j, -, hj⟩ := exists_of_mem_mapM hlist hitem
    exact isFinite_of_itemOfJson? hj
  next =>
    obtain ⟨x, hx, rfl⟩ := Option.map_eq_some_iff.1 h
    exact isFinite_of_numberOfJson? hx

end PropertyValue

namespace Properties

theorem mem_put {name : String} {value : PropertyValue} {entries : List (String × PropertyValue)}
    {entry : String × PropertyValue} (h : entry ∈ put name value entries) :
    entry = (name, value) ∨ entry ∈ entries := by
  induction entries with
  | nil => exact .inl (List.mem_singleton.1 h)
  | cons head rest ih =>
    obtain ⟨n, v⟩ := head
    rw [put] at h
    split at h
    next heq =>
      subst heq
      exact (List.mem_cons.1 h).imp_right (List.mem_cons_of_mem _)
    next =>
      rcases List.mem_cons.1 h with rfl | h
      · exact .inr List.mem_cons_self
      · exact (ih h).imp_right (List.mem_cons_of_mem _)

/-- What holds of the values that members say holds of the map that they make. -/
theorem forall_of_addAll {P : PropertyValue → Prop} {ms : List (String × Json)} {s p : Properties}
    (hadds : addAll add? s ms = some p) (hs : ∀ entry ∈ s.entries, P entry.2)
    (hms : ∀ m ∈ ms, ∀ value, PropertyValue.ofJson? m.2 = some value → P value) :
    ∀ entry ∈ p.entries, P entry.2 := by
  induction ms generalizing s with
  | nil =>
    cases hadds
    exact hs
  | cons m rest ih =>
    obtain ⟨name, j⟩ := m
    obtain ⟨hm, hrest⟩ := List.forall_mem_cons.1 hms
    obtain ⟨next, hnext, hadds⟩ := addAll_cons_eq_some_iff.1 hadds
    obtain ⟨value, hvalue, rfl⟩ := Option.map_eq_some_iff.1 hnext
    refine ih hadds (fun entry hentry => ?_) hrest
    rcases mem_put hentry with rfl | hentry
    · exact hm value hvalue
    · exact hs entry hentry

end Properties

/-- The numbers of a map that a text says are finite. -/
theorem isFinite_of_optionalProperties? {j : Json} {p : Properties}
    (h : j.optionalProperties? = some (some p)) : p.IsFinite := by
  cases j with
  | object ms =>
    obtain ⟨q, hq, hqp⟩ := Option.map_eq_some_iff.1 h
    cases hqp
    refine Properties.forall_of_addAll hq (by rintro _ ⟨⟩) fun m _ value hvalue => ?_
    exact PropertyValue.isFinite_of_ofJson? hvalue
  | _ => cases h

namespace Node

/-! ### Where fields come from -/

/-- The fields are some that the members of an object make. -/
structure Fields.From (members : List (String × Json)) (fields : Fields) : Prop where
  properties : ∀ p, fields.properties.join = some p →
    ∃ m ∈ members, m.2.optionalProperties? = some (some p)
  children : ∀ cs, fields.children.join = some cs →
    ∃ items, (Field.children.key, .array items) ∈ members ∧ nodesOf? items = some cs
  extra : ∀ m ∈ fields.extra, m ∈ members ∧ Field.ofKey? m.1 = .none

theorem Field.key_of_ofKey? {key : String} {field : Field} (h : ofKey? key = some field) :
    key = field.key := by
  rw [ofKey?] at h
  have hfound := List.find?_some h
  exact (of_decide_eq_true hfound).symm

theorem exists_of_childrenOf? {j : Json} {cs : List Node} (h : childrenOf? j = some (some cs)) :
    ∃ items, j = .array items ∧ nodesOf? items = some cs := by
  cases j with
  | array items =>
    obtain ⟨ds, hds, heq⟩ := Option.map_eq_some_iff.1 h
    cases heq
    exact ⟨items, rfl, hds⟩
  | _ => cases h

section From

variable {members : List (String × Json)} {fields fields' : Fields}

theorem Fields.From.none : Fields.From [] .none where
  properties := by rintro p ⟨⟩
  children := by rintro cs ⟨⟩
  extra := by rintro m ⟨⟩

theorem Fields.From.concat (h : fields.From members) (m : String × Json) :
    fields.From (members ++ [m]) where
  properties p hp :=
    let ⟨n, hn, hread⟩ := h.properties p hp
    ⟨n, List.mem_append_left _ hn, hread⟩
  children cs hcs :=
    let ⟨items, hitems, hread⟩ := h.children cs hcs
    ⟨items, List.mem_append_left _ hitems, hread⟩
  extra n hn := (h.extra n hn).imp_left (List.mem_append_left _)

theorem Fields.From.add? (h : fields.From members) {key : String} {value : Json}
    (hadd : fields.add? key value (childrenOf? value) = some fields') :
    fields'.From (members ++ [(key, value)]) := by
  have hbefore := h.concat (key, value)
  have hlast : (key, value) ∈ members ++ [(key, value)] :=
    List.mem_append_right _ List.mem_cons_self
  unfold Fields.add? at hadd
  cases hkey : Field.ofKey? key with
  | none =>
    rw [hkey] at hadd
    cases hadd
    refine ⟨hbefore.properties, hbefore.children, fun m hm => ?_⟩
    rcases List.mem_append.1 hm with hm | hm
    · exact hbefore.extra m hm
    · cases List.mem_singleton.1 hm
      exact ⟨hlast, hkey⟩
  | some field =>
    rw [hkey] at hadd
    by_cases hhas : fields.has field = true
    · simp [hhas] at hadd
    · -- only the new field is another one, and it is made of the last member
      simp only [hhas] at hadd
      cases field with
      | type | tagName | value =>
        obtain ⟨s, -, rfl⟩ := Option.map_eq_some_iff.1 hadd
        exact ⟨hbefore.properties, hbefore.children, hbefore.extra⟩
      | properties =>
        obtain ⟨q, hq, rfl⟩ := Option.map_eq_some_iff.1 hadd
        refine ⟨fun p hp => ⟨_, hlast, ?_⟩, hbefore.children, hbefore.extra⟩
        rw [hq, ← hp]
        rfl
      | children =>
        obtain ⟨ds, hds, rfl⟩ := Option.map_eq_some_iff.1 hadd
        refine ⟨hbefore.properties, fun cs hcs => ?_, hbefore.extra⟩
        obtain ⟨items, rfl, hitems⟩ := exists_of_childrenOf? (hds.trans (congrArg some hcs))
        exact ⟨items, Field.key_of_ofKey? hkey ▸ hlast, hitems⟩

theorem Fields.From.fieldsOf? (later : List (String × Json)) (h : fields.From members)
    (hread : fieldsOf? fields later = some fields') : fields'.From (members ++ later) := by
  induction later generalizing members fields with
  | nil =>
    cases hread
    rwa [List.append_nil]
  | cons m later ih =>
    obtain ⟨key, value⟩ := m
    obtain ⟨next, hnext, hread⟩ := Option.bind_eq_some_iff.1 hread
    have hfrom := ih (h.add? hnext) hread
    rwa [List.append_assoc] at hfrom

end From

/-- The node that fields make, by its kind. -/
theorem Fields.toNodeOfKind_cases {fields : Fields} {kind : String} {x : Extra} {node : Node}
    (h : fields.toNodeOfKind kind x = .ok node) :
    node = .root (fields.children.join.getD []) x ∨
    (∃ tag, tag ≠ "" ∧
      node = .element tag fields.properties.join (fields.children.join.getD []) x) ∨
    (∃ value, node = .text value x) ∨
    kind ∉ interpretedKinds ∧ node = .other kind fields.value.join fields.children.join x := by
  unfold toNodeOfKind at h
  dsimp only at h
  -- a root, an element, a text and a node of another kind
  split at h
  · cases h
    exact .inl rfl
  · split at h
    next => cases h
    next tag _ =>
      split at h
      next => cases h
      next htag =>
        cases h
        exact .inr (.inl ⟨tag, htag, rfl⟩)
  · split at h
    next => cases h
    next value _ =>
      cases h
      exact .inr (.inr (.inl ⟨value, rfl⟩))
  · next hroot helement htext =>
    cases h
    refine .inr (.inr (.inr ⟨?_, rfl⟩))
    simpa [interpretedKinds] using ⟨hroot, helement, htext⟩

/-- Fields make a node of their kind, with the values of embedded texts put into the extra ones; these
are read before the kind asks for its fields. -/
theorem Fields.toNode_eq_ok_iff {fields : Fields} {node : Node} :
    fields.toNode = .ok node ↔ ∃ kind vs, fields.type = some kind ∧
      resolveMembers fields.extra = .ok vs ∧
      fields.toNodeOfKind kind (.ofMembers vs) = .ok node := by
  unfold toNode toExtra
  constructor
  · intro h
    cases htype : fields.type with
    | none =>
      rw [htype] at h
      cases h
    | some kind =>
      rw [htype] at h
      obtain ⟨extra, hextra, hmade⟩ := exists_of_bind_eq_ok h
      rw [mapError_eq_ok_iff] at hextra hmade
      cases hvs : resolveMembers fields.extra with
      | error fault =>
        rw [hvs] at hextra
        cases hextra
      | ok vs =>
        rw [hvs] at hextra
        cases hextra
        exact ⟨kind, vs, rfl, rfl, hmade⟩
  · rintro ⟨kind, vs, htype, hvs, hmade⟩
    rw [htype, hvs]
    exact mapError_eq_ok_iff.2 hmade

/-- An object that says a node has members that make the fields of it. -/
theorem exists_fields_of_ofJson? {members : List (String × Json)} {node : Node}
    (h : ofJson? (.object members) = some node) :
    ∃ (fields : Fields) (kind : String) (vs : List (String × Json)), fields.From members ∧
      resolveMembers fields.extra = .ok vs ∧
      fields.toNodeOfKind kind (.ofMembers vs) = .ok node := by
  obtain ⟨fields, hfields, hnode⟩ := Option.bind_eq_some_iff.1 h
  have hfrom := Fields.From.none.fieldsOf? members hfields
  obtain ⟨kind, vs, -, hvs, hmade⟩ := Fields.toNode_eq_ok_iff.1 (toOption_eq_some_iff.1 hnode)
  exact ⟨fields, kind, vs, hfrom, hvs, hmade⟩

theorem exists_of_mem_nodesOf? {items : List Json} {nodes : List Node}
    (h : nodesOf? items = some nodes) {node : Node} (hnode : node ∈ nodes) :
    ∃ item ∈ items, ofJson? item = some node :=
  exists_of_mem_mapM (nodesOf?_eq items ▸ h) hnode

/-- An item of an array in an object is smaller than the object. -/
theorem sizeOf_lt_of_mem_items {members : List (String × Json)} {key : String} {items : List Json}
    {item : Json} (hmem : (key, .array items) ∈ members) (hitem : item ∈ items) :
    sizeOf item < sizeOf (Json.object members) := by
  have h1 := List.sizeOf_lt_of_mem hmem
  have h2 := List.sizeOf_lt_of_mem hitem
  simp only [object.sizeOf_spec, Prod.mk.sizeOf_spec, array.sizeOf_spec] at h1 ⊢
  omega

/-- What is read of a value is proved by recursion on it: the nodes among the children are read of
items of an array under the key of the children. -/
theorem ofJson?_induction {P : Json → Node → Prop}
    (step : ∀ (members : List (String × Json)) (fields : Fields) (kind : String)
      (vs : List (String × Json)) (node : Node), fields.From members →
      resolveMembers fields.extra = .ok vs → fields.toNodeOfKind kind (.ofMembers vs) = .ok node →
      (∀ items, (Field.children.key, .array items) ∈ members → ∀ item ∈ items, ∀ child,
        ofJson? item = some child → P item child) → P (.object members) node) :
    ∀ (j : Json) (node : Node), ofJson? j = some node → P j node
  | .object members, node, h => by
    obtain ⟨fields, kind, vs, hfrom, hvs, hmade⟩ := exists_fields_of_ofJson? h
    exact step members fields kind vs node hfrom hvs hmade fun items hmem item hitem child hread =>
      ofJson?_induction step item child hread
  | .null, _, h | .bool _, _, h | .integer _, _, h | .float _, _, h | .string _, _, h
  | .array _, _, h => by cases h
termination_by j => sizeOf j
decreasing_by exact sizeOf_lt_of_mem_items hmem hitem

/-! ### Faithfulness -/

theorem Fields.From.unreserved {members : List (String × Json)} {fields : Fields}
    (h : fields.From members) {vs : List (String × Json)}
    (hvs : resolveMembers fields.extra = .ok vs) : (Extra.ofMembers vs).Unreserved := by
  intro m hm field hkey
  have hmem := mem_keys_canonicalMembers.1 (List.mem_map_of_mem (f := (·.1)) hm)
  rw [keys_of_resolveMembers hvs] at hmem
  obtain ⟨n, hn, heq⟩ := List.mem_map.1 hmem
  have hnone := (h.extra n hn).2
  rw [heq.trans hkey] at hnone
  cases field <;> exact absurd hnone (by decide)

/-- **Every tree that a text says is faithful.** -/
theorem faithful_of_ofJson? (j : Json) (node : Node) (h : ofJson? j = some node) :
    node.Faithful := by
  refine ofJson?_induction (P := fun _ node => node.Faithful) ?_ j node h
  intro members fields kind vs node hfrom hvs hmade ih
  have hextra := hfrom.unreserved hvs
  -- the nodes in the content are read of smaller values
  have hcontent : ∀ cs, fields.children.join = some cs → AllFaithful cs := by
    intro cs hcs
    obtain ⟨items, hmem, hitems⟩ := hfrom.children cs hcs
    refine allFaithful_iff.2 fun child hchild => ?_
    obtain ⟨item, hitem, hread⟩ := exists_of_mem_nodesOf? hitems hchild
    exact ih items hmem item hitem child hread
  have hcontent' : AllFaithful (fields.children.join.getD []) := by
    cases hcs : fields.children.join with
    | none => trivial
    | some cs => exact hcontent cs hcs
  rcases Fields.toNodeOfKind_cases hmade with rfl | ⟨tag, htag, rfl⟩ | ⟨value, rfl⟩ | ⟨hkind, rfl⟩
  · exact ⟨hcontent', hextra⟩
  · refine ⟨htag, fun p hp => ?_, hcontent', hextra⟩
    obtain ⟨m, -, hm⟩ := hfrom.properties p hp
    exact isFinite_of_optionalProperties? hm
  · exact hextra
  · cases hcs : fields.children.join with
    | none => exact ⟨hkind, hextra⟩
    | some cs => exact ⟨hkind, hcontent cs hcs, hextra⟩

theorem faithful_of_parse {text : String} {r : Root} (h : Root.parse text = .ok r) :
    r.toNode.Faithful := by
  obtain ⟨j, -, hj⟩ := Root.parse_eq_ok_iff.1 h
  exact faithful_of_ofJson? j _ (Root.ofJson?_eq_some_iff.1 hj)

end Node

/-! ### Nesting -/

namespace PropertyValue

/-- A property value nests no deeper than what says it: only a list nests at all. -/
theorem nesting_le_of_ofJson? {j : Json} {value : PropertyValue} (h : ofJson? j = some value) :
    value.toJson.nesting ≤ j.nesting := by
  unfold ofJson? at h
  split at h
  next => cases h; simp [toJson, Json.nesting]
  next => cases h; simp [toJson, Json.nesting]
  next => cases h; simp [toJson, Json.nesting]
  next items =>
    obtain ⟨list, -, rfl⟩ := Option.map_eq_some_iff.1 h
    have hflat : nestingItems (list.map itemToJson) ≤ 0 := by
      rw [nestingItems_le_iff]
      intro item hitem
      obtain ⟨i, -, rfl⟩ := List.mem_map.1 hitem
      cases i with
      | number x => exact (nesting_numberToJson x).le
      | string s => exact (nesting_string s).le
    rw [toJson, Json.nesting, Json.nesting]
    omega
  next =>
    obtain ⟨x, -, rfl⟩ := Option.map_eq_some_iff.1 h
    rw [toJson, nesting_numberToJson]
    exact Nat.zero_le _

end PropertyValue

/-- A property map nests no deeper than what says it. -/
theorem nesting_le_of_optionalProperties? {j : Json} {p : Properties}
    (h : j.optionalProperties? = some (some p)) : p.toJson.nesting ≤ j.nesting := by
  cases j with
  | object ms =>
    obtain ⟨q, hq, hqp⟩ := Option.map_eq_some_iff.1 h
    cases hqp
    have hvalues : ∀ entry ∈ p.entries, entry.2.toJson.nesting ≤ nestingMembers ms := by
      refine Properties.forall_of_addAll (P := fun v => v.toJson.nesting ≤ nestingMembers ms) hq
        (by rintro _ ⟨⟩) fun m hm value hvalue => ?_
      exact (PropertyValue.nesting_le_of_ofJson? hvalue).trans (nesting_le_of_mem hm)
    rw [Properties.toJson, Json.nesting, Json.nesting]
    refine Nat.succ_le_succ (nestingMembers_le_iff.2 fun m hm => ?_)
    obtain ⟨entry, hentry, rfl⟩ := List.mem_map.1 hm
    exact hvalues entry hentry
  | _ => cases h

namespace Node

/-- No extra field of a node that the value says embeds a text. -/
inductive EmbedsNothing : Json → Prop
  | object {members : List (String × Json)}
    (extra : ∀ m ∈ members, Field.ofKey? m.1 = none → m.2.Plain)
    (children : ∀ items, (Field.children.key, .array items) ∈ members →
      ∀ item ∈ items, EmbedsNothing item) : EmbedsNothing (.object members)

theorem EmbedsNothing.of_fields {members : List (String × Json)}
    (hkeys : ∀ m ∈ members, (Field.ofKey? m.1).isSome)
    (children : ∀ items, (Field.children.key, .array items) ∈ members →
      ∀ item ∈ items, EmbedsNothing item) : EmbedsNothing (.object members) := by
  refine .object (fun m hm hnone => ?_) children
  have hsome := hkeys m hm
  rw [hnone] at hsome
  cases hsome

theorem Fields.From.propertiesNesting_le {members : List (String × Json)} {fields : Fields}
    (h : fields.From members) :
    propertiesNesting fields.properties.join ≤ nestingMembers members := by
  cases hp : fields.properties.join with
  | none => exact Nat.zero_le _
  | some p =>
    obtain ⟨m, hm, hread⟩ := h.properties p hp
    exact (nesting_le_of_optionalProperties? hread).trans (nesting_le_of_mem hm)

/-- Sorted extra fields nest no deeper than those that were read. -/
theorem Fields.From.extraNesting_le {members : List (String × Json)} {fields : Fields}
    (h : fields.From members) (hplain : ∀ m ∈ fields.extra, m.2.Plain)
    {vs : List (String × Json)} (hvs : resolveMembers fields.extra = .ok vs) :
    extraNesting (.ofMembers vs) ≤ nestingMembers members := by
  rw [resolveMembers_of_plain fields.extra (havePlain_iff.2 hplain)] at hvs
  cases hvs
  refine (nestingMembers_canonicalMembers_le _).trans (nestingMembers_le_iff.2 fun m hm => ?_)
  exact nesting_le_of_mem (h.extra m hm).1

/-- **A tree nests no deeper than the text that says it**, if that embeds no text, but for empty
content that the text leaves out. -/
theorem leastNesting_le_nesting (j : Json) (node : Node) (hnothing : EmbedsNothing j)
    (h : ofJson? j = some node) : node.leastNesting ≤ j.nesting := by
  refine ofJson?_induction (P := fun j node => EmbedsNothing j → node.leastNesting ≤ j.nesting) ?_
    j node h hnothing
  intro members fields kind vs node hfrom hvs hmade ih hnothing
  obtain ⟨hplain, hbelow⟩ := hnothing
  have hextra : extraNesting (.ofMembers vs) ≤ nestingMembers members :=
    hfrom.extraNesting_le (fun m hm => hplain m (hfrom.extra m hm).1 (hfrom.extra m hm).2) hvs
  have hproperties := hfrom.propertiesNesting_le
  -- the array of the content takes one level, which the node has above it in the text as well
  have hcontent : ∀ cs, fields.children.join = some cs →
      leastNestingAll cs + 1 ≤ nestingMembers members := by
    intro cs hcs
    obtain ⟨items, hmem, hitems⟩ := hfrom.children cs hcs
    have hall : leastNestingAll cs ≤ nestingItems items := by
      refine leastNestingAll_le_iff.2 fun child hchild => ?_
      obtain ⟨item, hitem, hread⟩ := exists_of_mem_nodesOf? hitems hchild
      exact (ih items hmem item hitem child hread (hbelow items hmem item hitem)).trans
        (nestingItems_le_iff.1 (Nat.le_refl _) item hitem)
    have harray := nesting_le_of_mem hmem
    rw [Json.nesting] at harray
    omega
  have hcontent' : contentNesting (fields.children.join.getD []) ≤ nestingMembers members := by
    cases hcs : fields.children.join with
    | none => exact Nat.zero_le _
    | some cs => exact (contentNesting_le cs).trans (hcontent cs hcs)
  rw [Json.nesting]
  rcases Fields.toNodeOfKind_cases hmade with rfl | ⟨tag, -, rfl⟩ | ⟨value, rfl⟩ | ⟨-, rfl⟩
  · rw [leastNesting]
    omega
  · rw [leastNesting]
    omega
  · rw [leastNesting]
    omega
  · cases hcs : fields.children.join with
    | none =>
      rw [leastNesting]
      omega
    | some cs =>
      have hall := hcontent cs hcs
      rw [leastNesting]
      omega

end Node

end DocTree
