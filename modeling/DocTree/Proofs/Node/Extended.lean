import DocTree.Proofs.Json.Extended
import DocTree.Proofs.Node.Decode

/-!
# Trees in longer texts

A tree is checked while its text is read, so an error that is found does not depend on the rest of the
text (`Node.lasting_reading`), and a tree ends with the closing bracket of its object
(`Node.closes_reading`).  Together, what is known of a text before its end stays so, however the text
goes on (`Root.parse_append`).
-/

namespace DocTree

open Json Reading
open Numeral (Ends)

/-! ### Fields -/

theorem PropertyValue.lasting_reading (levels : Nat) : Lasting Ends (reading levels) := by
  refine (lasting_value levels).bind fun j => ?_
  unfold check
  split
  · exact lasting_pure _
  · exact lasting_refuse _

theorem Properties.lasting_rest (levels : Nat) : Lasting Ends (rest levels) := by
  refine lasting_members (fun properties name r hr => ?_) _
  cases hr
  exact (PropertyValue.lasting_reading levels).bind fun _ => lasting_pure _

namespace Node

theorem lasting_stringField : Lasting Ends stringField := by
  refine lasting_token.bind fun head => ?_
  split
  · exact lasting_pure _
  · exact lasting_refuse _

theorem lasting_optionalString : Lasting Ends optionalString := by
  refine lasting_token.bind fun head => ?_
  split
  · exact lasting_pure _
  · exact lasting_pure _
  · exact lasting_refuse _

theorem lasting_optionalProperties (levels : Nat) : Lasting Ends (optionalProperties levels) := by
  refine lasting_token.bind fun head => ?_
  split
  · exact lasting_pure _
  · exact (Properties.lasting_rest _).bind fun _ => lasting_pure _
  · exact lasting_fail _
  · exact lasting_refuse _

theorem lasting_optionalChildren {node : Option (Reading Mismatch Node)}
    (h : ∀ r ∈ node, Lasting Ends r) (hneeds : ∀ r ∈ node, NeedsText r) :
    Lasting Ends (optionalChildren node) := by
  refine lasting_token.bind fun head => ?_
  split
  · exact lasting_pure _
  · exact (lasting_items (h _ rfl) (hneeds _ rfl)).bind fun _ => lasting_pure _
  · exact lasting_fail _
  · exact lasting_refuse _

section Rest

variable {levels : Nat} {children : Reading Mismatch (Option (List Node))}

theorem lasting_readField (h : Lasting Ends children) (fields : Fields) (key : String)
    (r : Reading Mismatch Fields) (hr : readField levels children fields key = .ok r) :
    Lasting Ends r := by
  unfold readField at hr
  split at hr
  · cases hr
    exact (lasting_value levels).bind fun _ => lasting_pure _
  · split at hr
    · cases hr
    · split at hr <;> cases hr
      · exact lasting_stringField.bind fun _ => lasting_pure _
      · exact lasting_optionalString.bind fun _ => lasting_pure _
      · exact lasting_optionalString.bind fun _ => lasting_pure _
      · exact (lasting_optionalProperties levels).bind fun _ => lasting_pure _
      · exact h.bind fun _ => lasting_pure _

/-! ### Nodes -/

theorem lasting_rest (h : Lasting Ends children) : Lasting Ends (rest levels children) := by
  refine (lasting_members (lasting_readField h) _).bind fun fields => ?_
  split
  · exact lasting_pure _
  · exact lasting_refuse _

/-- The checks behind the closing bracket read nothing. -/
theorem closes_rest (h : Lasting Ends children) : Closes (rest levels children) := by
  refine (lasting_members (lasting_readField h) _).closes_bind (fun fields => ?_)
    fun fields => .inl (closes_members (lasting_readField h) _ fields)
  split
  · exact closes_pure _
  · exact closes_refuse _

theorem needsText_rest : NeedsText (rest levels children) := ⟨.object, rfl⟩

end Rest

section Around

variable {rest : Option (Reading Mismatch Node)}

theorem lasting_nodeAround (h : ∀ r ∈ rest, Lasting Ends r) : Lasting Ends (nodeAround rest) := by
  refine lasting_token.bind fun head => ?_
  split
  · exact h _ rfl
  · exact lasting_fail _
  · exact lasting_refuse _

theorem closes_nodeAround (h : ∀ r ∈ rest, Closes r) (hneeds : ∀ r ∈ rest, NeedsText r) :
    Closes (nodeAround rest) := by
  refine lasting_token.closes_bind (fun head => ?_) fun head => .inr fun node left => ?_
  · split
    · exact h _ rfl
    · exact closes_fail _
    · exact closes_refuse _
  · split
    · exact (hneeds _ rfl).ne_ok
    · exact fun hrun => nomatch hrun
    · exact fun hrun => nomatch hrun

theorem needsText_nodeAround : NeedsText (nodeAround rest) := needsText_token.bind

end Around

theorem needsText_reading (levels : Nat) : NeedsText (reading levels) := by
  fun_cases reading levels <;> exact needsText_nodeAround

theorem lasting_noChildren : Lasting Ends (optionalChildren none) :=
  lasting_optionalChildren (fun _ h => nomatch h) (fun _ h => nomatch h)

theorem lasting_someChildren {levels : Nat} (h : Lasting Ends (reading levels)) :
    Lasting Ends (optionalChildren (some (reading levels))) := by
  refine lasting_optionalChildren ?_ ?_ <;> rintro r ⟨⟩
  · exact h
  · exact needsText_reading levels

/-- What is found of a node does not depend on the text behind it. -/
theorem lasting_reading (levels : Nat) : Lasting Ends (reading levels) := by
  fun_induction reading levels with
  | case1 => exact lasting_nodeAround fun r h => nomatch h
  | case2 =>
    refine lasting_nodeAround ?_
    rintro r ⟨⟩
    exact lasting_rest lasting_noChildren
  | case3 levels ih =>
    refine lasting_nodeAround ?_
    rintro r ⟨⟩
    exact lasting_rest (lasting_someChildren ih)

/-- A node ends with its closing bracket. -/
theorem closes_reading (levels : Nat) : Closes (reading levels) := by
  fun_cases reading levels with
  | case1 => exact closes_nodeAround (fun r h => nomatch h) fun r h => nomatch h
  | case2 =>
    refine closes_nodeAround ?_ ?_ <;> rintro r ⟨⟩
    · exact closes_rest lasting_noChildren
    · exact needsText_rest
  | case3 levels =>
    refine closes_nodeAround ?_ ?_ <;> rintro r ⟨⟩
    · exact closes_rest (lasting_someChildren (lasting_reading levels))
    · exact needsText_rest

end Node

/-! ### Whole texts -/

namespace Root

theorem lasting_reading : Lasting Ends reading := by
  refine (Node.lasting_reading maxNesting).bind fun node => ?_
  split
  · exact lasting_pure _
  · exact lasting_refuse _

theorem closes_reading : Closes reading := by
  refine (Node.lasting_reading maxNesting).closes_bind (fun node => ?_)
    fun node => .inl (Node.closes_reading maxNesting node)
  split
  · exact closes_pure _
  · exact closes_refuse _

end Root

/-- The text ended before the tree did. -/
def TreeError.EndsEarly : TreeError → Prop
  | invalidJson reason => reason.EndsEarly
  | fault _ => False

namespace Root

theorem parse_eq_error_iff {text : String} {e : TreeError} :
    parse text = .error e ↔
      ∃ reason, readAll reading text = .error reason ∧ e = .invalidJson reason :=
  mapError_eq_error_iff

/-- **What is known of a text stays so when it goes on.**  An error other than an early end stays the
same whatever comes, as long as it is no part of a numeral at the end; behind the text of a tree only
blanks may stand, and it is the same tree then. -/
theorem parse_append (s t : String) :
    (∀ e, parse s = .error e → ¬ e.EndsEarly → Ends t.toList → parse (s ++ t) = .error e) ∧
    (∀ r, parse s = .ok r → ∀ r', parse (s ++ t) = .ok r' ↔
      r' = r ∧ ∀ c ∈ t.toList, isBlank c = true) := by
  constructor
  · intro e hparse hearly ht
    obtain ⟨reason, hread, rfl⟩ := parse_eq_error_iff.1 hparse
    exact parse_eq_error_iff.2 ⟨reason, readAll_append_of_error lasting_reading hread hearly ht, rfl⟩
  · intro r hparse r'
    rw [parse_eq_ok_iff_readAll] at hparse ⊢
    exact readAll_append_of_ok closes_reading hparse t

/-- A root that says its kind again, with the text cut off there. -/
def sampleCutText : List Char :=
  ['{', '"', 't', 'y', 'p', 'e', '"', ':', '"', 'r', 'o', 'o', 't', '"', ',',
    '"', 't', 'y', 'p', 'e', '"']

/-- A root without anything in it. -/
def sampleRootText : List Char :=
  ['{', '"', 't', 'y', 'p', 'e', '"', ':', '"', 'r', 'o', 'o', 't', '"', '}']

set_option maxRecDepth 4000 in
theorem parse_append_sampleTexts :
    parse (String.ofList sampleCutText ++ "]") =
      .error (.invalidJson (.refused (.duplicateField "type"))) ∧
    parse (String.ofList sampleRootText ++ " ") = .ok ⟨[], .ofMembers []⟩ ∧
    parse (String.ofList sampleRootText ++ "]") ≠ .ok ⟨[], .ofMembers []⟩ := by
  have hcut : parse (String.ofList sampleCutText) =
      .error (.invalidJson (.refused (.duplicateField "type"))) := by
    rw [parse, readAll, Reading.run, String.toList_ofList]
    rfl
  have hroot : parse (String.ofList sampleRootText) = .ok ⟨[], .ofMembers []⟩ := by
    rw [parse, readAll, Reading.run, String.toList_ofList]
    rfl
  refine ⟨(parse_append _ _).1 _ hcut ?_ ?_, ((parse_append _ _).2 _ hroot _).2 ⟨rfl, ?_⟩,
    fun h => ?_⟩
  · exact id
  · exact ends_cons (by decide) []
  · simp [isBlank]
  · have hblank := (((parse_append _ _).2 _ hroot _).1 h).2 ']' (by simp)
    exact absurd hblank (by decide)

end Root

end DocTree
