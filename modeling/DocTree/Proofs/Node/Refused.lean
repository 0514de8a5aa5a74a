import DocTree.Proofs.Node.Offences

/-!
# What a text is refused for

A tree is checked while it is read, so a text is refused for the first thing that is wrong with the
value in it, in reading order: `Node.reading_judges` for the nodes in a text, and
`Root.parse_firstOffence` for trees and whole texts.

What is decided at a key depends on the members before it, and what is decided where an object closes
on all of them.  Members that were read without an offence have made the fields that they say, so the
fields tell both.
-/

namespace DocTree

open Json Reading

namespace Node

/-! ### Readings of fields -/

section Readings

variable {levels : Nat}

/-- A value begins with its first token. -/
theorem token_of_value {text rest : List Char} {j : Json}
    (h : @value Mismatch levels text = .ok (j, rest)) :
    ∃ mid, @token Mismatch text = .ok (j.head, mid) ∧ (j.isScalar = true → mid = rest) := by
  cases j with
  | array js =>
    obtain ⟨_, mid, -, htoken, -⟩ := value_eq_ok_array_iff.1 h
    exact ⟨mid, htoken, fun hscalar => nomatch hscalar⟩
  | object ms =>
    obtain ⟨_, mid, -, htoken, -⟩ := value_eq_ok_object_iff.1 h
    exact ⟨mid, htoken, fun hscalar => nomatch hscalar⟩
  | null | bool | integer | float | string =>
    exact ⟨rest, (value_eq_ok_scalar_iff rfl).1 h, fun _ => rfl⟩

theorem stringField_judges : Judges (value levels) stringField stringOffences := by
  intro text j rest hj
  obtain ⟨mid, htoken, hmid⟩ := token_of_value hj
  rw [stringField, bind_of_ok htoken]
  cases j with
  | string s => exact ⟨s, by rw [hmid rfl]; rfl⟩
  | _ => rfl

theorem optionalString_judges :
    Judges (value levels) optionalString optionalStringOffences := by
  intro text j rest hj
  obtain ⟨mid, htoken, hmid⟩ := token_of_value hj
  rw [optionalString, bind_of_ok htoken]
  cases j with
  | string s => exact ⟨some s, by rw [hmid rfl]; rfl⟩
  | null => exact ⟨none, by rw [hmid rfl]; rfl⟩
  | _ => rfl

theorem propertyValue_judges :
    Judges (value levels) (PropertyValue.reading levels) propertyOffences := by
  intro text j rest hj
  rw [PropertyValue.reading, bind_of_ok hj, PropertyValue.check, propertyOffences,
    ← PropertyValue.isSome_ofJson?]
  cases PropertyValue.ofJson? j with
  | none => rfl
  | some v => exact ⟨v, rfl⟩

theorem propertiesRest_judges {text rest : List Char} {ms : List (String × Json)}
    (hms : members (collect (@value Mismatch levels)) [] text = .ok (ms, rest)) :
    Tells (Properties.rest levels text) rest (propertiesOffences (.object ms)) := by
  have hj : MemberJudges (value levels)
      (fun p name => .ok do return Properties.insert p name (← PropertyValue.reading levels))
      Properties.add? .empty fun _ _ j => propertyOffences j :=
    fun _ _ _ _ _ _ _ hvalue => (propertyValue_judges _ _ _ hvalue).map
  rw [propertiesOffences, ← inTurn_apart _ []]
  exact members_judges property_decodes hj hms

theorem optionalProperties_judges :
    Judges (value levels) (optionalProperties levels) propertiesOffences := by
  intro text j rest hj
  obtain ⟨mid, htoken, hmid⟩ := token_of_value hj
  rw [optionalProperties, bind_of_ok htoken]
  cases j with
  | null => exact ⟨none, by rw [hmid rfl]; rfl⟩
  | object ms =>
    obtain ⟨below, behind, rfl, hobject, hms⟩ := value_eq_ok_object_iff.1 hj
    cases htoken.symm.trans hobject
    exact (propertiesRest_judges hms).map
  | _ => rfl

/-! ### Readings of members -/

theorem optionalChildren_judges {node : Reading Mismatch Node}
    (h : Judges (value levels) node offences) :
    Judges (value (levels + 1)) (optionalChildren (some node)) childrenOffences := by
  intro text j rest hj
  obtain ⟨mid, htoken, hmid⟩ := token_of_value hj
  rw [optionalChildren, bind_of_ok htoken]
  cases j with
  | null => exact ⟨none, by rw [hmid rfl]; rfl⟩
  | array js =>
    obtain ⟨below, behind, hbelow, harray, hjs⟩ := value_eq_ok_array_iff.1 hj
    cases hbelow
    cases htoken.symm.trans harray
    rw [childrenOffences, itemOffences_eq]
    exact (items_judges h hjs).map
  | _ => rfl

theorem noChildren_judges : Judges (value 0) (optionalChildren none) childrenOffences := by
  intro text j rest hj
  obtain ⟨mid, htoken, hmid⟩ := token_of_value hj
  rw [optionalChildren, bind_of_ok htoken]
  cases j with
  | null => exact ⟨none, by rw [hmid rfl]; rfl⟩
  | array js =>
    obtain ⟨below, -, hbelow, -⟩ := value_eq_ok_array_iff.1 hj
    cases hbelow
  | _ => rfl

theorem readField_judges {children : Reading Mismatch (Option (List Node))}
    (h : Judges (value levels) children childrenOffences) :
    MemberJudges (value levels) (readField levels children)
      (fun fields key j => fields.add? key j (childrenOf? j)) .none
      fun before key j => memberOffences before key j (childrenOffences j) := by
  intro before fields hfields key text j rest hj
  rw [← fieldsOf?_eq] at hfields
  obtain ⟨hadmissible, rfl⟩ := fieldsOf?_none_eq_some_iff.1 hfields
  change Tells (keyed (readField levels children) (fieldsSaid before) key text) rest
    (memberOffences before key j (childrenOffences j))
  rw [keyed, readField, memberOffences]
  cases hkey : Field.ofKey? key with
  | none => exact ⟨_, bind_eq_ok_iff.2 ⟨j, rest, hj, rfl⟩⟩
  | some field =>
    obtain rfl := Field.key_of_ofKey? hkey
    simp only [has_fieldsSaid hadmissible, Members.isSome_last?_iff]
    by_cases hmem : field.key ∈ before.map (·.1)
    · -- a repeated field is refused before its value is read
      rw [if_pos hmem, if_pos hmem]
      rfl
    · rw [if_neg hmem, if_neg hmem, List.nil_append]
      cases field with
      | type => exact (stringField_judges _ _ _ hj).map
      | tagName => exact (optionalString_judges _ _ _ hj).map
      | value => exact (optionalString_judges _ _ _ hj).map
      | properties => exact (optionalProperties_judges _ _ _ hj).map
      | children => exact (h _ _ _ hj).map

end Readings

/-! ### Where an object closes -/

section Closing

variable {members : List (String × Json)} (h : Admissible members)
include h

/-- What the kind finds fault with, if it makes no node of the fields. -/
theorem kindOffences_eq {kind : String} (hkind : stringIn Field.type.key members = some kind)
    (x : Extra) : kindOffences members =
      match (fieldsSaid members).toNodeOfKind kind x with
      | .ok _ => []
      | .error fault => [.fault fault] := by
  unfold Fields.toNodeOfKind kindOffences
  rw [hkind, join_tagName_fieldsSaid, join_value_fieldsSaid, stringIn, stringIn]
  by_cases helement : kind = "element"
  · rw [helement]
    cases hlast : Members.last? Field.tagName.key members with
    | none => rfl
    | some j =>
      have haccepted := h.accepted_of_last? hlast
      cases j with
      | null => rfl
      | string tag =>
        by_cases hempty : tag = ""
        · simp [hempty, string?]
        · simp [hempty, string?]
      | _ => cases haccepted
  by_cases htext : kind = "text"
  · rw [htext]
    cases hlast : Members.last? Field.value.key members with
    | none => rfl
    | some j =>
      have haccepted := h.accepted_of_last? hlast
      cases j with
      | null => rfl
      | string value => rfl
      | _ => cases haccepted
  -- every other kind makes a node of any fields
  by_cases hroot : kind = "root"
  · rw [hroot]
    rfl
  · simp [helement, htext]

/-- What the reader finds wrong where an object closes is the first thing that is. -/
theorem head?_closingOffences : (closingOffences members).head? =
    match (fieldsSaid members).toNode with
    | .ok _ => none
    | .error reason => some reason := by
  have htype : (fieldsSaid members).type = stringIn Field.type.key members := rfl
  have hextra : (fieldsSaid members).toExtra =
      (resolveMembers (extraMembers members)).map .ofMembers := rfl
  rw [Fields.toNode, closingOffences, htype]
  by_cases hmem : Field.type.key ∈ members.map (·.1)
  · obtain ⟨j, hlast⟩ := Option.isSome_iff_exists.1 (Members.isSome_last?_iff.2 hmem)
    obtain ⟨kind, hj⟩ := Option.isSome_iff_exists.1 (h.accepted_of_last? hlast)
    have hkind : stringIn Field.type.key members = some kind := by
      rw [stringIn, hlast]
      exact hj
    -- embedded texts are read before the kind asks for its fields
    rw [if_pos hmem, List.nil_append, hkind, embeddedOffences, hextra]
    cases resolveMembers (extraMembers members) with
    | error fault => rfl
    | ok vs =>
      rw [List.nil_append, kindOffences_eq h hkind (.ofMembers vs)]
      change _ = match Except.mapError Mismatch.fault
          ((fieldsSaid members).toNodeOfKind kind (.ofMembers vs)) with
        | .ok _ => none
        | .error reason => some reason
      cases (fieldsSaid members).toNodeOfKind kind (.ofMembers vs) with
      | ok node => rfl
      | error fault => rfl
  · have hnone : stringIn Field.type.key members = none := by
      rw [stringIn, Option.not_isSome_iff_eq_none.1 (mt Members.isSome_last?_iff.1 hmem)]
      rfl
    rw [hnone, if_neg hmem]
    rfl

end Closing

/-! ### Readings of nodes -/

section Nodes

variable {levels : Nat} {children : Reading Mismatch (Option (List Node))}

theorem rest_judges (hd : Decodes (value levels) children childrenOf?)
    (h : Judges (value levels) children childrenOffences) {text behind : List Char}
    {ms : List (String × Json)}
    (hms : members (collect (@value Mismatch levels)) [] text = .ok (ms, behind)) :
    Tells (Node.rest levels children text) behind (offences (.object ms)) := by
  have hfields := members_judges (readField_decodes hd) (readField_judges h) hms
  rw [offences, fieldOffences_eq]
  refine hfields.bind fun fields hread => ?_
  -- the members that made the fields are those that stand in the text
  obtain ⟨ms', hms', hadds⟩ := (members_decodes (readField_decodes hd) _ _ _ _).1 hread
  cases hms.symm.trans hms'
  rw [← fieldsOf?_eq] at hadds
  obtain ⟨hadmissible, rfl⟩ := fieldsOf?_none_eq_some_iff.1 hadds
  have hclosing := head?_closingOffences hadmissible
  cases hnode : (fieldsSaid ms).toNode with
  | ok node =>
    rw [hnode] at hclosing
    rw [List.head?_eq_none_iff.1 hclosing]
    exact ⟨node, rfl⟩
  | error reason =>
    rw [hnode] at hclosing
    obtain ⟨later, hlater⟩ := List.head?_eq_some_iff.1 hclosing
    rw [hlater]
    rfl

theorem nodeAround_judges (hd : Decodes (value levels) children childrenOf?)
    (h : Judges (value levels) children childrenOffences) :
    Judges (value (levels + 1)) (nodeAround (some (Node.rest levels children))) offences := by
  intro text j behind hj
  obtain ⟨mid, htoken, -⟩ := token_of_value hj
  rw [nodeAround, bind_of_ok htoken]
  cases j with
  | object ms =>
    obtain ⟨below, start, hbelow, hobject, hms⟩ := value_eq_ok_object_iff.1 hj
    cases hbelow
    cases htoken.symm.trans hobject
    exact rest_judges hd h hms
  | _ => rfl

/-- **What a value is refused for as a node is the first of its offences**, and a value without any is
read as a node. -/
theorem reading_judges : ∀ levels : Nat, Judges (value levels) (Node.reading levels) offences
  | 0 => by
    intro text j behind hj
    obtain ⟨mid, htoken, -⟩ := token_of_value hj
    rw [Node.reading, nodeAround, bind_of_ok htoken]
    cases j with
    | object ms =>
      obtain ⟨below, -, hbelow, -⟩ := value_eq_ok_object_iff.1 hj
      cases hbelow
    | _ => rfl
  | 1 => nodeAround_judges noChildren_decodes noChildren_judges
  | levels + 2 => nodeAround_judges (optionalChildren_decodes (reading_decodes levels))
      (optionalChildren_judges (reading_judges levels))

end Nodes

end Node

/-! ### Readings of trees -/

namespace Root

theorem reading_judges : Judges (value maxNesting) Root.reading offences := by
  intro text j behind hj
  refine (Node.reading_judges maxNesting text j behind hj).bind fun node hnode => ?_
  obtain ⟨i, hi, hread⟩ := (Node.reading_decodes maxNesting text node behind).1 hnode
  cases hj.symm.trans hi
  obtain ⟨hwell, -, rfl⟩ := (Node.ofJson?_eq_some_iff j node).1 hread
  rw [kindOffences, @Node.kindIn?_of_wellFormed resolved j hwell]
  have hroot := @Node.exists_built_eq_root_iff resolved j hwell
  rw [@Node.kindIn?_of_wellFormed resolved j hwell, Option.some_inj] at hroot
  by_cases hkind : (Node.built resolved j).kind = "root"
  · obtain ⟨r, hr⟩ := hroot.2 hkind
    rw [← hr]
    exact ⟨r, rfl⟩
  · simp only [hkind, if_false]
    cases hbuilt : Node.built resolved j with
    | root children extra => exact absurd (hroot.1 ⟨⟨children, extra⟩, hbuilt.symm⟩) hkind
    | _ => rfl

/-! ### Whole texts -/

section Parse

variable {text : String} {j : Json}

/-- A text that says a value is read as a tree, or refused for the first offence of the value. -/
theorem parse_of_offences (hread : readAll (@value Mismatch maxNesting) text = .ok j) :
    (offences j = [] → ∃ r, Root.parse text = .ok r) ∧
      ∀ first later, offences j = first :: later →
        Root.parse text = .error (.invalidJson (.refused first)) := by
  obtain ⟨haccepted, hrefused⟩ := readAll_eq_of_judges reading_judges hread
  refine ⟨fun hnone => ?_, fun first later hsome => ?_⟩
  · obtain ⟨r, hr⟩ := haccepted hnone
    exact ⟨r, Root.parse_eq_ok_iff_readAll.2 hr⟩
  · rw [Root.parse, hrefused first later hsome]
    rfl

/-- **A tree is refused for what a reader from left to right meets first.**  A text that says a value
within the limit on nesting is the text of a tree if there is no offence in the value, and is refused
for the first one otherwise; what is wrong with a node in the content is always met before what the
object around it closes with.  Where no object begins like an embedded text, no offence is one of
embedded texts. -/
theorem parse_firstOffence (hreads : Says Mismatch text j) (hnesting : j.nesting ≤ maxNesting) :
    ((∃ r, Root.parse text = .ok r) ↔ offences j = []) ∧
    (∀ e, Root.parse text = .error e ↔ ∃ first later, offences j = first :: later ∧
      e = .invalidJson (.refused first) ∧ e.message = "Invalid HAST JSON: " ++ first.message) ∧
    (∀ members items item, Node.Encloses j (.object members) →
      (Node.Field.children.key, .array items) ∈ members → item ∈ items →
      ∃ earlier between later, offences j =
        earlier ++ Node.offences item ++ between ++ Node.closingOffences members ++ later) ∧
    (j.Plain → ∀ m ∈ offences j, m.isEmbedded = false) := by
  obtain ⟨haccepted, hrefused⟩ := parse_of_offences (readAll_value_iff.2 ⟨hreads, hnesting⟩)
  refine ⟨?_, fun e => ?_, fun _ _ _ h hitems => offences_eq_append h hitems,
    isEmbedded_of_mem_offences⟩
  · refine ⟨fun ⟨r, hr⟩ => ?_, haccepted⟩
    cases hoffences : offences j with
    | nil => rfl
    | cons first later =>
      rw [hrefused first later hoffences] at hr
      cases hr
  · constructor
    · intro he
      cases hoffences : offences j with
      | nil =>
        obtain ⟨r, hr⟩ := haccepted hoffences
        rw [hr] at he
        cases he
      | cons first later =>
        rw [hrefused first later hoffences] at he
        cases he
        exact ⟨first, later, rfl, rfl, rfl⟩
    · rintro ⟨first, later, hoffences, rfl, -⟩
      exact hrefused first later hoffences

end Parse

/-- An element without a tag among children, behind them a number that is no node, and around them an
object that does not say its kind and comes with its children twice. -/
def sampleOffences : Json :=
  .object [("children", .array [.object [("type", .string "element"), ("x", .null)],
      .integer ⟨4, by decide⟩]),
    ("children", .null), ("value", .bool true)]

theorem parse_firstOffence_sampleOffences :
    offences sampleOffences =
      [.fault (.missingField "tagName" "element"), .wrongType (.integer ⟨4, by decide⟩) .node,
        .duplicateField "children", .wrongType (.bool true) .string, .missingType] ∧
    Root.parse sampleOffences.render =
      .error (.invalidJson (.refused (.fault (.missingField "tagName" "element")))) := by
  have hreads : Says Mismatch sampleOffences.render sampleOffences :=
    ⟨maxNesting, readAll_render (by decide) rfl⟩
  obtain ⟨-, hrefused, -⟩ := parse_firstOffence hreads (by decide)
  exact ⟨rfl, (hrefused _).2 ⟨_, _, rfl, rfl, rfl⟩⟩

/-- A root with a value that is no string, and before that a node with an extra field that begins like
an embedded text. -/
def embeddedChild : Json :=
  .object [("type", .string "root"),
    ("children", .array [.object [("type", .string "x"),
      ("d", .object [(embeddedKey, .integer ⟨4, by decide⟩)])]]),
    ("value", .integer ⟨7, by decide⟩)]

/-- The only offence that is none of an embedded text is the value, but the text is refused for the
embedded text. -/
theorem parse_embeddedChild :
    Says Mismatch embeddedChild.render embeddedChild ∧ embeddedChild.nesting ≤ maxNesting ∧
    (offences embeddedChild).filter (fun m => !m.isEmbedded) =
      [.wrongType (.integer ⟨7, by decide⟩) .string] ∧
    Root.parse embeddedChild.render =
      .error (.invalidJson (.refused (.embedded (.notText (.integer ⟨4, by decide⟩))))) := by
  have hread : readAll (@value Mismatch maxNesting) embeddedChild.render = .ok embeddedChild :=
    readAll_render (by decide) rfl
  exact ⟨⟨maxNesting, hread⟩, by decide, rfl, (parse_of_offences hread).2 _ _ rfl⟩

end Root

end DocTree
