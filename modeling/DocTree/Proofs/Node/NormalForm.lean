import DocTree.Proofs.Node.OtherNumbers
import DocTree.Proofs.Node.Written

/-!
# Normal forms of trees

A tree may be said in many texts: fields in any order, null for a field that is absent, properties and
extra fields that come twice, numbers in any notation.  Written again, it has one text, its normal form.
If the doubles in that are read back, it is read as the same tree and written as it stands
(`Root.parse_normalForm`).
-/

namespace DocTree

open Json

/-! ### Written property values -/

namespace PropertyValue

/-- The form of written property values: scalars and arrays, and no zero as a double. -/
inductive Written : Json → Prop
  | null : Written .null
  | bool (b : Bool) : Written (.bool b)
  | integer (n : Integer) : Written (.integer n)
  | float {x : Binary64.Finite} (unsigned : x.unsignedZero = x) : Written (.float x)
  | string (s : String) : Written (.string s)
  | array {items : List Json} (each : ∀ item ∈ items, Written item) : Written (.array items)

theorem written_toJson (value : PropertyValue) : Written value.toJson := by
  have hnumber (x : Binary64) : Written (numberToJson x) := by
    unfold numberToJson
    split
    · split
      next => exact .integer _
      next h => exact .float (Binary64.Finite.unsignedZero_of_not_written_whole h)
    · exact .null
  cases value with
  | boolean b => exact .bool b
  | number x => exact hnumber x
  | string s => exact .string s
  | list items =>
    refine .array fun j hj => ?_
    obtain ⟨item, -, rfl⟩ := List.mem_map.1 hj
    cases item with
    | number x => exact hnumber x
    | string s => exact .string s
  | null => exact .null

theorem Written.isCanonical {j : Json} (h : Written j) : j.IsCanonical := by
  induction h with
  | array _ ih => rwa [IsCanonical, areCanonical_iff]
  | _ => simp [IsCanonical]

end PropertyValue

/-! ### Keys -/

theorem Properties.keysDistinct_toJson (p : Properties) : p.toJson.KeysDistinct := by
  rw [toJson, keysDistinct_object, List.map_map]
  refine ⟨p.nodup, fun m hm => ?_⟩
  obtain ⟨entry, -, rfl⟩ := List.mem_map.1 hm
  exact keysDistinct_of_isCanonical _ entry.2.written_toJson.isCanonical

namespace Node

theorem keysDistinct_of_mem_ownMembers {node : Node} {items : List Json}
    (hitems : AreKeysDistinct items) {m : String × Json} (hm : m ∈ node.ownMembers items) :
    m.2.KeysDistinct := by
  have hvalue (value : Option String) : ∀ m ∈ valueMember value, m.2.KeysDistinct := by
    cases value <;> simp [valueMember, KeysDistinct]
  have hproperties (p : Option Properties) : ∀ m ∈ propertiesMember p, m.2.KeysDistinct := by
    cases p <;> simp [propertiesMember, Properties.keysDistinct_toJson]
  have hchildren : (array items).KeysDistinct := by rwa [KeysDistinct]
  have hstring (s : String) : (string s).KeysDistinct := by simp [KeysDistinct]
  revert m
  fun_cases ownMembers node items <;>
    simp only [List.cons_append, List.forall_mem_cons, List.forall_mem_append, hstring, hchildren,
      List.not_mem_nil, true_and, false_implies, implies_true, and_true]
  · exact hproperties _
  · exact hvalue _
  · exact hvalue _

/-- No object in the written form of a tree has a key twice. -/
theorem keysDistinct_of_toJson (node : Node) (h : node.Faithful) {j : Json}
    (hj : node.toJson = .ok j) : j.KeysDistinct := by
  induction node using content_induction generalizing j with
  | step node ih =>
    obtain ⟨items, hitems, rfl⟩ := exists_of_toJson hj
    have hbelow : AreKeysDistinct items := by
      refine areKeysDistinct_iff.2 fun item hitem => ?_
      obtain ⟨child, hchild, hwritten⟩ := exists_of_mem_toJsonAll hitems hitem
      exact ih child hchild (h.of_mem_content hchild) hwritten
    refine keysDistinct_object.2 ⟨nodup_keys_written h.unreserved items, fun m hm => ?_⟩
    rcases List.mem_append.1 hm with hm | hm
    · exact keysDistinct_of_mem_ownMembers hbelow hm
    · exact (keysDistinct_object.1 (keysDistinct_of_isCanonical _ node.extra.canonical)).2 m hm

/-! ### Zeros -/

end Node

/-- A zero of either sign is written as an integer. -/
theorem PropertyValue.numberToJson_unsignedZero (x : Binary64) :
    numberToJson x.unsignedZero = numberToJson x := by
  cases x with
  | finite y =>
    by_cases hzero : y.steps = 0
    · have hunsigned : y.unsignedZero = .zero false := if_pos hzero
      rw [Binary64.unsignedZero, hunsigned, numberToJson_of_steps_eq_zero rfl,
        numberToJson_of_steps_eq_zero hzero]
    · have hunsigned : y.unsignedZero = y := if_neg hzero
      rw [Binary64.unsignedZero, hunsigned]
  | _ => rfl

@[simp] theorem PropertyValue.toJson_unsignedZeros (value : PropertyValue) :
    value.unsignedZeros.toJson = value.toJson := by
  have hitem (item : PropertyItem) : itemToJson item.unsignedZeros = itemToJson item := by
    cases item with
    | number x => exact numberToJson_unsignedZero x
    | string s => rfl
  cases value with
  | boolean | string | null => rfl
  | number x => exact numberToJson_unsignedZero x
  | list items => simp [unsignedZeros, toJson, hitem]

@[simp] theorem Properties.toJson_unsignedZeros (p : Properties) :
    p.unsignedZeros.toJson = p.toJson := by
  simp [toJson, unsignedZeros, PropertyValue.toJson_unsignedZeros]

theorem Properties.names_unsignedZeros (p : Properties) : p.unsignedZeros.names = p.names := by
  simp [names, unsignedZeros]

namespace Node

theorem propertiesMember_unsignedZeros (properties : Option Properties) :
    propertiesMember (properties.map Properties.unsignedZeros) = propertiesMember properties := by
  cases properties with
  | none => rfl
  | some p => rw [Option.map_some, propertiesMember, p.toJson_unsignedZeros, propertiesMember]

mutual

/-- The sign of a zero is not written. -/
@[simp] theorem toJson_unsignedZeros : ∀ node : Node, node.unsignedZeros.toJson = node.toJson
  | root children extra => by
    rw [unsignedZeros, toJson, toJson, toJsonAll_unsignedZerosAll children]
  | element tag properties children extra => by
    rw [unsignedZeros, toJson, toJson, toJsonAll_unsignedZerosAll children,
      propertiesMember_unsignedZeros]
  | text value extra => by rw [unsignedZeros]
  | other kind value none extra => by rw [unsignedZeros]
  | other kind value (some children) extra => by
    rw [unsignedZeros, toJson, toJson, toJsonAll_unsignedZerosAll children]

theorem toJsonAll_unsignedZerosAll : ∀ nodes : List Node,
    toJsonAll (unsignedZerosAll nodes) = toJsonAll nodes
  | [] => rfl
  | node :: rest => by
    rw [unsignedZerosAll, toJsonAll, toJsonAll, toJson_unsignedZeros node,
      toJsonAll_unsignedZerosAll rest]

end

/-! ### Order of properties -/

mutual

/-- The names in every property map, in document order and in the order of the map. -/
def propertyNames : Node → List (List String)
  | root children _ => propertyNamesAll children
  | element _ properties children _ =>
    (properties.map Properties.names).toList ++ propertyNamesAll children
  | text _ _ => []
  | other _ _ none _ => []
  | other _ _ (some children) _ => propertyNamesAll children

/-- The names in every property map of nodes beside each other. -/
def propertyNamesAll : List Node → List (List String)
  | [] => []
  | node :: rest => propertyNames node ++ propertyNamesAll rest

end

mutual

theorem propertyNames_unsignedZeros : ∀ node : Node,
    node.unsignedZeros.propertyNames = node.propertyNames
  | root children extra => by
    rw [unsignedZeros, propertyNames, propertyNames, propertyNamesAll_unsignedZerosAll children]
  | element tag properties children extra => by
    rw [unsignedZeros, propertyNames, propertyNames, propertyNamesAll_unsignedZerosAll children,
      Option.map_map]
    exact congrArg (fun names => (properties.map names).toList ++ _)
      (funext Properties.names_unsignedZeros)
  | text value extra => by rw [unsignedZeros]
  | other kind value none extra => by rw [unsignedZeros]
  | other kind value (some children) extra => by
    rw [unsignedZeros, propertyNames, propertyNames, propertyNamesAll_unsignedZerosAll children]

theorem propertyNamesAll_unsignedZerosAll : ∀ nodes : List Node,
    propertyNamesAll (unsignedZerosAll nodes) = propertyNamesAll nodes
  | [] => rfl
  | node :: rest => by
    rw [unsignedZerosAll, propertyNamesAll, propertyNamesAll, propertyNames_unsignedZeros node,
      propertyNamesAll_unsignedZerosAll rest]

end

end Node

/-! ### Whole texts -/

namespace Root

/-- The text of a value is read as an equal tree, with the properties in the same order, and that is
written as the same text. -/
def ReadBackFrom (r : Root) (out : Json) : Prop :=
  ∃ r', parse out.render = .ok r' ∧ r'.toNode.same r.toNode = true ∧
    r'.toNode.propertyNames = r.toNode.propertyNames ∧ r'.render = .ok out.render

/-- **What is written of a tree that was read is its normal form.**  Writing does not fail, no object
in the text has a key twice, and the text nests at most one level deeper than the one that was read, for
the content that may be left out.  If it nests no deeper than may be read, it can be read again; and if
what is written for its doubles is read as these, it is read as an equal tree with the properties in the
same order, and that is written as the same text.

All of the last have to do with embedded texts.  What one says may nest deeper than the text it stands
in, so the first is said of texts that embed none.  And an object that begins with another member may
begin like an embedded text in the order it is written in; the tree can be read again exactly if there
is no such object. -/
theorem parse_normalForm {text : String} {r : Root} (h : parse text = .ok r) :
    ∃ j out : Json, readAll (@value Mismatch maxNesting) text = .ok j ∧ r.toNode.toJson = .ok out ∧
      r.render = .ok out.render ∧ out.KeysDistinct ∧
      (Node.EmbedsNothing j → out.nesting ≤ j.nesting + 1) ∧
      (out.nesting ≤ maxNesting →
        (r.toNode.Plain → ∃ r', parse out.render = .ok r') ∧
        (out.ReadsBack → (r.ReadBackFrom out ↔ r.toNode.Plain))) := by
  have hfaithful := Node.faithful_of_parse h
  obtain ⟨j, hj, hr⟩ := parse_eq_ok_iff.1 h
  obtain ⟨out, hout, hrender, hread, hparse⟩ := exists_render hfaithful
  refine ⟨j, out, hj, hout, hrender, Node.keysDistinct_of_toJson _ hfaithful hout,
    fun hnothing => ?_, fun hnesting => ⟨fun hplain => exists_parse_of_plain hread hplain hnesting,
      fun hback => ⟨?_, fun hplain => ?_⟩⟩⟩
  · -- what is written may have an empty array that the text leaves out
    have hleast := Node.leastNesting_le_nesting j _ hnothing (ofJson?_eq_some_iff.1 hr)
    have hnode := r.toNode.nesting_le_leastNesting
    rw [Node.nesting_of_toJson _ hout]
    omega
  · rintro ⟨r', hr', hsame, -⟩
    exact Node.plain_of_reread _ _ ((hparse hnesting hback r').1 hr') hsame
  · -- what comes back has lost the signs of its zeros alone
    have hr' : parse out.render = .ok r.unsignedZeros := by
      rw [hparse hnesting hback, toNode_unsignedZeros, Node.reread_of_plain _ hplain]
    refine ⟨r.unsignedZeros, hr', ?_, ?_, ?_⟩
    · rw [toNode_unsignedZeros]
      exact Node.same_unsignedZeros _ hfaithful
    · rw [toNode_unsignedZeros, Node.propertyNames_unsignedZeros]
    · exact render_of_toJson (by rw [toNode_unsignedZeros, Node.toJson_unsignedZeros, hout])

/-- A tree said loosely: fields in another order, null for a field that is absent, no content in the
element, an extra field and a property that come twice, and a zero with a sign. -/
def sampleLoose : Json :=
  .object [("value", .null), ("x", .bool false), ("children", .array
    [.object [("tagName", .string "p"), ("type", .string "element"),
      ("properties", .object [("b", .null), ("a", .float (.zero true)), ("b", .string "last")])]]),
    ("x", .object []), ("type", .string "root")]

/-- The tree of the text. -/
def sampleLooseTree : Root :=
  ⟨[.element "p" (some (.ofList [("b", .string "last"), ("a", .number (.finite (.zero true)))])) []
    (.ofMembers [])], .ofMembers [("x", .object [])]⟩

theorem parse_normalForm_sampleLoose :
    parse sampleLoose.render = .ok sampleLooseTree ∧
    ∃ out : Json, sampleLooseTree.render = .ok out.render ∧ out.KeysDistinct ∧
      out.nesting ≤ sampleLoose.nesting + 1 ∧ sampleLooseTree.ReadBackFrom out := by
  have hvalue : readAll (@value Mismatch maxNesting) sampleLoose.render = .ok sampleLoose :=
    readAll_render (by decide) rfl
  have hparse : parse sampleLoose.render = .ok sampleLooseTree :=
    parse_eq_ok_iff.2 ⟨sampleLoose, hvalue, rfl⟩
  have hnothing : Node.EmbedsNothing sampleLoose := by
    refine .object ?_ fun items hitems item hitem => ?_
    · simp [Node.Field.ofKey?, Node.Field.all, Node.Field.key, Plain, HavePlain, embedded?]
    · obtain rfl : items = _ := by simpa [Node.Field.key] using hitems
      cases List.mem_singleton.1 hitem
      exact .of_fields (by decide) fun items hitems => by simp [Node.Field.key] at hitems
  have hplain : sampleLooseTree.toNode.Plain := by
    simp [sampleLooseTree, toNode, Node.Plain, Node.AllPlain, Extra.Plain, Extra.ofMembers,
      canonicalMembers, canonical, Members.insertEarlier, HavePlain, Json.Plain, embedded?]
  obtain ⟨j, out, hj, hout, hrender, hdistinct, hnesting, hread⟩ := parse_normalForm hparse
  rw [hvalue] at hj
  cases hj
  have hbound := hnesting hnothing
  obtain ⟨-, hsame⟩ := hread (hbound.trans (by decide))
  have hback : out.ReadsBack := by
    cases hout
    simp [sampleLooseTree, Node.propertiesMember, Extra.ofMembers, canonicalMembers, canonical,
      Members.insertEarlier, Properties.toJson, Properties.ofList, Properties.insert, Properties.put,
      Properties.empty, PropertyValue.toJson]
  exact ⟨hparse, out, hrender, hdistinct, hbound, (hsame hback).2 hplain⟩

/-- A root with an extra field in which the key of embedded texts comes second. -/
def secondKeyField : Json :=
  .object [("type", .string "root"), ("children", .array []),
    ("data", .object [("a", .null), (embeddedKey, .null)])]

/-- In the order of keys that comes first, so what is written of the tree cannot be read. -/
theorem parse_secondKeyField : ∃ (r : Root) (out : Json), parse secondKeyField.render = .ok r ∧
    r.render = .ok out.render ∧ out.nesting ≤ maxNesting ∧ ∀ r', parse out.render ≠ .ok r' := by
  let x : Extra := .ofMembers [("data", .object [("a", .null), (embeddedKey, .null)])]
  have hparse : parse secondKeyField.render = .ok ⟨[], x⟩ :=
    parse_eq_ok_iff.2 ⟨secondKeyField, readAll_render (by decide) rfl, rfl⟩
  obtain ⟨out, hout, hrender, hread, -⟩ := exists_render (Node.faithful_of_parse hparse)
  have hnesting : out.nesting ≤ maxNesting := by
    rw [Node.nesting_of_toJson _ hout]
    decide
  have hlost : (toNode ⟨[], x⟩).reread = none := rfl
  refine ⟨_, out, hparse, hrender, hnesting, fun r' hr' => ?_⟩
  obtain ⟨back, hback⟩ := (exists_parse_iff_reread hread hnesting).1 ⟨r', hr'⟩
  rw [hlost] at hback
  cases hback

end Root

end DocTree
