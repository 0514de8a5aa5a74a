import DocTree.Proofs.Node.OtherNumbers
import DocTree.Proofs.Node.Written

/-!
# Trees that are made

A tree that is made node by node (`Node.Made`) may hold any numbers, also ones that have no notation in
JSON.  Those are written as null, which may stand in place of a property, but not of an item of a list.
So the text of such a tree can be read exactly if all numbers in lists are finite (`Root.parse_made`).
-/

namespace DocTree

open Json

/-! ### Property values -/

namespace PropertyValue

/-- Every number in the value is finite, if that is a list. -/
def HasFiniteItems : PropertyValue → Prop
  | list items => ∀ item ∈ items, item.IsFinite
  | _ => True

theorem isPropertyValue_of_isPropertyItem {j : Json} (h : j.isPropertyItem = true) :
    j.isPropertyValue = true := by
  cases j with
  | integer | float | string => rfl
  | _ => cases h

theorem isPropertyItem_of_number (x : Binary64.Finite) :
    (numberToJson (.finite x)).isPropertyItem = true := by
  rcases numberToJson_eq x with ⟨n, hn⟩ | hf
  · rw [hn]
    rfl
  · rw [hf]
    rfl

/-- A number that is not finite is written as null, which is no item. -/
theorem isPropertyItem_itemToJson (item : PropertyItem) :
    (itemToJson item).isPropertyItem = true ↔ item.IsFinite := by
  constructor
  · intro h x hx
    rw [hx] at h
    cases x with
    | finite y => exact ⟨y, rfl⟩
    | _ => cases h
  · intro h
    cases item with
    | string s => rfl
    | number x =>
      obtain ⟨y, rfl⟩ := h x rfl
      exact isPropertyItem_of_number y

/-- What is written of a value is a property value, but for lists of numbers that have no notation. -/
theorem isPropertyValue_toJson (value : PropertyValue) :
    value.toJson.isPropertyValue = true ↔ value.HasFiniteItems := by
  cases value with
  | boolean | string | null => exact ⟨fun _ => trivial, fun _ => rfl⟩
  | number x =>
    refine ⟨fun _ => trivial, fun _ => ?_⟩
    cases x with
    | finite y => exact isPropertyValue_of_isPropertyItem (isPropertyItem_of_number y)
    | _ => rfl
  | list items =>
    rw [toJson, isPropertyValue, List.all_map, List.all_eq_true]
    exact forall₂_congr fun item _ => isPropertyItem_itemToJson item

end PropertyValue

namespace Node

/-- The trees that are made from nothing: roots and elements with trees in them that were made before,
texts, and nodes of other kinds with any value and with content or without. -/
inductive Made : Node → Prop
  | root {children : List Node} (below : ∀ child ∈ children, Made child) :
    Made (Root.ofChildren children).toNode
  | element {tag : String} (nonempty : tag ≠ "") : Made (Element.ofTag tag nonempty).toNode
  | property {e : Element} (before : Made e.toNode) (name : String) (value : PropertyValue) :
    Made (e.insertProperty name value).toNode
  | append {e : Element} {children : List Node} (before : Made e.toNode)
    (below : ∀ child ∈ children, Made child) : Made (e.append children).toNode
  | text (value : String) : Made (ofText value)
  | other {kind : String} (uninterpreted : kind ∉ interpretedKinds) (value : Option String)
    {children : Option (List Node)} (below : ∀ cs ∈ children, ∀ child ∈ cs, Made child) :
    Made { OtherNode.ofKind kind with value, children }.toNode

/-- In all properties at any depth, the numbers in lists are finite. -/
inductive HasFiniteLists : Node → Prop
  | of_content {node : Node}
    (own : ∀ p ∈ node.properties?, ∀ entry ∈ p.entries, entry.2.HasFiniteItems)
    (below : ∀ child ∈ node.content, HasFiniteLists child) : HasFiniteLists node

/-- What the ways to make a node have in common. -/
structure Plainly (node : Node) : Prop where
  named : node.Named
  extra : node.extra = .empty
  below : ∀ child ∈ node.content, Made child

theorem Made.plainly {node : Node} (h : Made node) : Plainly node := by
  induction h with
  | root below => exact ⟨trivial, rfl, below⟩
  | element nonempty => exact ⟨nonempty, rfl, fun child hchild => nomatch hchild⟩
  | property before name value ih => exact ⟨ih.named, ih.extra, ih.below⟩
  | append before below ih =>
    refine ⟨ih.named, ih.extra, fun child hchild => ?_⟩
    exact (List.mem_append.1 hchild).elim (ih.below child) (below child)
  | text value => exact ⟨trivial, rfl, fun child hchild => nomatch hchild⟩
  | @other kind uninterpreted value children below =>
    refine ⟨uninterpreted, rfl, fun child hchild => ?_⟩
    cases children with
    | none => cases hchild
    | some cs => exact below cs rfl child hchild

/-! ### What is written -/

theorem Made.unreserved {node : Node} (h : Made node) : node.extra.Unreserved := by
  rw [h.plainly.extra]
  rintro m ⟨⟩

/-- A tree that is made can be written. -/
theorem Made.exists_toJson (node : Node) (h : Made node) : ∃ j, node.toJson = .ok j := by
  induction node using content_induction with
  | step node ih =>
    obtain ⟨items, hitems⟩ := exists_toJsonAll_of_forall fun child hchild =>
      ih child hchild (h.plainly.below child hchild)
    exact ⟨_, toJson_of_content h.plainly.named hitems⟩

theorem Made.embedsNothing (node : Node) (h : Made node) {j : Json} (hj : node.toJson = .ok j) :
    EmbedsNothing j := by
  induction node using content_induction generalizing j with
  | step node ih =>
    obtain ⟨items, hitems, rfl⟩ := exists_of_toJson hj
    have hextra : node.extra.members = [] := by rw [h.plainly.extra]; rfl
    rw [hextra, List.append_nil]
    refine .of_fields (fun m hm => ?_) fun items' hmem item hitem => ?_
    · obtain ⟨field, -, hkey⟩ := exists_of_mem_ownMembers hm
      rw [hkey, Field.ofKey?_key]
      rfl
    · cases children_of_mem_ownMembers hmem
      obtain ⟨child, hchild, hwritten⟩ := exists_of_mem_toJsonAll hitems hitem
      exact ih child hchild (h.plainly.below child hchild) hwritten

theorem hasFiniteLists_iff {node : Node} : node.HasFiniteLists ↔
    (∀ p ∈ node.properties?, ∀ entry ∈ p.entries, entry.2.HasFiniteItems) ∧
      ∀ child ∈ node.content, child.HasFiniteLists :=
  ⟨fun ⟨own, below⟩ => ⟨own, below⟩, fun ⟨own, below⟩ => ⟨own, below⟩⟩

/-- The fields of a node with finite lists are those of its kind. -/
theorem fieldsOfKind_written {node : Node} (hnamed : node.Named) (hextra : node.extra.Unreserved)
    (hfinite : ∀ p ∈ node.properties?, ∀ entry ∈ p.entries, entry.2.HasFiniteItems)
    (items : List Json) :
    FieldsOfKind node.kind (node.ownMembers items ++ node.extra.members) := by
  have honce : ∀ field : Field,
      (Members.all field.key (node.ownMembers items ++ node.extra.members)).length ≤ 1 :=
    fun field => Members.length_all_le_one (nodup_keys_written hextra items) field.key
  refine ⟨?_, honce, fun j hj => ?_, fun j hj => ?_, fun j hj => ?_, fun j hj => ?_, fun hkind => ?_,
    fun hkind => ?_⟩
  -- the type, the strings, the property map and the content
  · exact (all_eq_singleton_iff (honce .type)).2 ((mem_written_iff hextra).2 type_mem_ownMembers)
  · exact .inr (string_of_mem_ownMembers (.inl rfl) ((mem_written_iff hextra).1 hj))
  · exact .inr (string_of_mem_ownMembers (.inr rfl) ((mem_written_iff hextra).1 hj))
  · obtain ⟨p, hp, rfl⟩ := properties_mem_ownMembers_iff.1 ((mem_written_iff hextra).1 hj)
    refine .inr ⟨_, rfl, fun m hm => ?_⟩
    obtain ⟨entry, hentry, rfl⟩ := List.mem_map.1 hm
    exact (PropertyValue.isPropertyValue_toJson _).2 (hfinite p hp entry hentry)
  · exact .inr ⟨items, children_of_mem_ownMembers ((mem_written_iff hextra).1 hj)⟩
  -- what the kind needs: a node of another kind is none of an interpreted one
  · cases node with
    | element tag => exact ⟨tag, by simp [ownMembers, Field.key], hnamed⟩
    | other kind =>
      cases hkind
      exact absurd (by decide) hnamed
    | _ => simp [kind] at hkind
  · cases node with
    | text value => exact ⟨value, by simp [ownMembers, Field.key]⟩
    | other kind =>
      cases hkind
      exact absurd (by decide) hnamed
    | _ => simp [kind] at hkind

theorem hasFiniteItems_of_written {node : Node} {items : List Json} {kind : String}
    (h : FieldsOfKind kind (node.ownMembers items ++ node.extra.members)) {p : Properties}
    (hp : p ∈ node.properties?) : ∀ entry ∈ p.entries, entry.2.HasFiniteItems := by
  intro entry hentry
  have hmem : (Field.properties.key, p.toJson) ∈ node.ownMembers items ++ node.extra.members :=
    List.mem_append_left _ (properties_mem_ownMembers_iff.2 ⟨p, hp, rfl⟩)
  rcases h.properties p.toJson hmem with hnull | ⟨ms, hms, hall⟩
  · cases hnull
  · cases hms
    exact (PropertyValue.isPropertyValue_toJson _).1 (hall _ (List.mem_map_of_mem hentry))

/-- What is written of a tree that is made is well formed if the numbers in lists are finite. -/
theorem Made.wellFormed_iff (node : Node) (h : Made node) {j : Json} (hj : node.toJson = .ok j) :
    WellFormed j ↔ node.HasFiniteLists := by
  induction node using content_induction generalizing j with
  | step node ih =>
    obtain ⟨items, hitems, rfl⟩ := exists_of_toJson hj
    have hextra := h.unreserved
    rw [wellFormed_object_iff, hasFiniteLists_iff]
    constructor
    · rintro ⟨⟨kind, hfields⟩, hchildren⟩
      refine ⟨fun p hp => hasFiniteItems_of_written hfields hp, fun child hchild => ?_⟩
      obtain ⟨item, hitem, hwritten⟩ := exists_mem_of_toJsonAll hitems hchild
      refine (ih child hchild (h.plainly.below child hchild) hwritten).1 (hchildren items ?_ item hitem)
      exact (mem_written_iff hextra).2 (children_mem_ownMembers hchild)
    · rintro ⟨hown, hbelow⟩
      refine ⟨⟨_, fieldsOfKind_written h.plainly.named hextra hown items⟩,
        fun items' hmem item hitem => ?_⟩
      cases children_of_mem_ownMembers ((mem_written_iff hextra).1 hmem)
      obtain ⟨child, hchild, hwritten⟩ := exists_of_mem_toJsonAll hitems hitem
      exact (ih child hchild (h.plainly.below child hchild) hwritten).2 (hbelow child hchild)

end Node

/-! ### Whole texts -/

namespace Root

theorem exists_parse_iff {r : Root} (h : Node.Made r.toNode) {out : Json}
    (hout : r.toNode.toJson = .ok out) (hnesting : out.nesting ≤ maxNesting) :
    (∃ r', parse out.render = .ok r') ↔ r.toNode.HasFiniteLists := by
  rw [← h.wellFormed_iff _ hout, exists_parse_render_iff hnesting, exists_ofJson?_iff]
  constructor
  · exact fun hread => hread.1
  · intro hwell
    refine ⟨hwell, Node.resolvable_of_embedsNothing (h.embedsNothing _ hout), ?_⟩
    obtain ⟨items, -, rfl⟩ := Node.exists_of_toJson hout
    exact Node.kindIn?_of_fieldsOfKind (Node.fieldsOfKind_written h.plainly.named h.unreserved
      (fun p hp => nomatch hp) items)

/-- **A tree that is made can be written, and read again just if the numbers in lists are finite.**
A number without a notation is written as null, which may be a property, but no item of a list. -/
theorem parse_made {r : Root} (h : Node.Made r.toNode) :
    ∃ out : Json, r.toNode.toJson = .ok out ∧ r.render = .ok out.render ∧
      (out.nesting ≤ maxNesting →
        ((∃ r', parse out.render = .ok r') ↔ r.toNode.HasFiniteLists)) := by
  obtain ⟨out, hout⟩ := h.exists_toJson
  exact ⟨out, hout, render_of_toJson hout, exists_parse_iff h hout⟩

/-- A paragraph with the given property. -/
def sampleMade (value : PropertyValue) : Root :=
  .ofChildren [((Element.ofTag "p" (by decide)).insertProperty "a" value).toNode]

theorem made_sampleMade (value : PropertyValue) : Node.Made (sampleMade value).toNode := by
  refine .root fun child hchild => ?_
  cases List.mem_singleton.1 hchild
  exact .property (.element _) "a" value

theorem hasFiniteLists_sampleMade {value : PropertyValue} :
    (sampleMade value).toNode.HasFiniteLists ↔ value.HasFiniteItems := by
  constructor
  · intro h
    have hparagraph := (Node.hasFiniteLists_iff.1 h).2 _ List.mem_cons_self
    exact (Node.hasFiniteLists_iff.1 hparagraph).1 _ rfl ("a", value) List.mem_cons_self
  · refine fun h => .of_content (fun p hp => nomatch hp) fun child hchild => ?_
    cases List.mem_singleton.1 hchild
    refine .of_content ?_ fun child hchild => nomatch hchild
    rintro p ⟨⟩ entry hentry
    cases List.mem_singleton.1 hentry
    exact h

/-- A number without a notation may be a property. -/
theorem parse_made_sampleMade :
    Node.Made (sampleMade (.number .notANumber)).toNode ∧
    ∃ text r', (sampleMade (.number .notANumber)).render = .ok text ∧ parse text = .ok r' := by
  have hmade := made_sampleMade (.number .notANumber)
  obtain ⟨out, hout, hrender, hread⟩ := parse_made hmade
  have hnesting : out.nesting ≤ maxNesting := by
    rw [Node.nesting_of_toJson _ hout]
    decide
  obtain ⟨r', hr'⟩ := (hread hnesting).2 (hasFiniteLists_sampleMade.2 trivial)
  exact ⟨hmade, out.render, r', hrender, hr'⟩

/-- In a list it is written as well, but cannot be read. -/
theorem not_parse_nanItem : Node.Made (sampleMade (.list [.number .notANumber])).toNode ∧
    ∃ out : Json, (sampleMade (.list [.number .notANumber])).render = .ok out.render ∧
      out.nesting ≤ maxNesting ∧ ∀ r', parse out.render ≠ .ok r' := by
  have hmade := made_sampleMade (.list [.number .notANumber])
  obtain ⟨out, hout⟩ := hmade.exists_toJson
  have hnesting : out.nesting ≤ maxNesting := by
    rw [Node.nesting_of_toJson _ hout]
    decide
  refine ⟨hmade, out, render_of_toJson hout, hnesting, fun r' hr' => ?_⟩
  have hfinite := hasFiniteLists_sampleMade.1 ((exists_parse_iff hmade hout hnesting).1 ⟨r', hr'⟩)
  obtain ⟨y, hy⟩ := hfinite _ List.mem_cons_self _ rfl
  cases hy

end Root

end DocTree
