import DocTree.Proofs.Docs.Effect

/-!
# Targets of permalinks

A heading gets a permalink if its identifier counts as present, and the permalink leads to the text of
the identifier.  The two are decided apart: a value that counts as present is a list whatever its items
are, but its text is that of the items.

They disagree on two values and no others (`PropertyValue.isPresent_and_text_eq_empty_iff`): the empty
list, and the list of the one empty string.  A heading with such an identifier gets a permalink to
nothing, every other permalink has a target (`linkHeading_target`).
-/

namespace DocTree

/-! ### Texts that are empty -/

theorem Decimal.positional_ne_nil (wholePoint : Bool) (d : Decimal) :
    d.positional wholePoint ≠ [] := by
  by_cases hneg : d.exponent < 0
  · rw [positional_of_neg hneg]
    exact List.cons_ne_nil _ _
  · by_cases hlong : d.digits.length ≤ d.exponent.toNat + 1
    · -- without any digits there are the zeros up to the place of the unit
      rw [positional_of_whole hneg hlong, ← List.append_assoc, ← List.length_pos_iff,
        List.length_append, List.length_append, List.length_replicate]
      omega
    · rw [positional_of_split hneg (Nat.lt_of_not_le hlong)]
      exact List.append_ne_nil_of_right_ne_nil _ (List.cons_ne_nil _ _)

theorem Layout.magnitude_ne_nil {l : Layout} (h : ∀ exponent, l.positional exponent = true)
    (x : Binary64.Finite) : l.magnitude x ≠ [] := by
  unfold magnitude
  by_cases hx : x.steps = 0
  · rw [if_pos hx]
    split <;> exact List.cons_ne_nil _ _
  · rw [if_neg hx]
    dsimp only
    rw [if_pos (h _)]
    exact Decimal.positional_ne_nil _ _

namespace PropertyValue

theorem numberText_ne_empty (x : Binary64) : numberText x ≠ "" := by
  unfold numberText
  by_cases hzero : x.isZero = true
  · rw [if_pos hzero]
    decide
  · rw [if_neg hzero]
    cases x with
    | finite x =>
      intro h
      have hnil : textLayout.write x = [] := by simpa using congrArg String.toList h
      unfold Layout.write at hnil
      split at hnil
      · exact List.cons_ne_nil _ _ hnil
      · exact Layout.magnitude_ne_nil (fun _ => rfl) x hnil
    | infinite negative => cases negative <;> decide
    | notANumber => decide

theorem itemText_eq_empty_iff {item : PropertyItem} : item.text = "" ↔ item = .string "" := by
  cases item with
  | number x =>
    constructor
    · intro h
      exact absurd h (numberText_ne_empty x)
    · intro h
      cases h
  | string s =>
    show s = "" ↔ _
    rw [PropertyItem.string.injEq]

/-- Of two texts or more, the joined text has a comma. -/
theorem intercalate_comma_eq_empty_iff {texts : List String} :
    String.intercalate "," texts = "" ↔ texts = [] ∨ texts = [""] := by
  cases texts with
  | nil => simp
  | cons text rest =>
    cases rest with
    | nil => simp
    | cons other rest => simp

/-- The values with an empty text. -/
theorem text_eq_empty_iff {value : PropertyValue} : value.text = "" ↔
    value = .string "" ∨ value = .null ∨ value = .list [] ∨ value = .list [.string ""] := by
  cases value with
  | boolean b => cases b <;> simp [text]
  | number x => simp [text, numberText_ne_empty]
  | string s => simp [text]
  | null => simp [text]
  | list items =>
    rw [text, intercalate_comma_eq_empty_iff]
    cases items with
    | nil => simp
    | cons item rest => simp [itemText_eq_empty_iff]

/-- Of the values that count as present, two lists alone have an empty text. -/
theorem isPresent_and_text_eq_empty_iff {value : PropertyValue} :
    value.isPresent = true ∧ value.text = "" ↔ value = .list [] ∨ value = .list [.string ""] := by
  rw [text_eq_empty_iff]
  constructor
  · rintro ⟨hpresent, rfl | rfl | hlist⟩
    · cases hpresent
    · cases hpresent
    · exact hlist
  · rintro (rfl | rfl)
    · exact ⟨rfl, .inr (.inr (.inl rfl))⟩
    · exact ⟨rfl, .inr (.inr (.inr rfl))⟩

end PropertyValue

/-! ### The permalink of a heading -/

namespace Docs

theorem count_linkHeading_ne_zero_iff {config : Config} {e : Element} :
    (linkHeading config e).count ≠ 0 ↔ ∃ id, permalinkId? e = some id := by
  unfold linkHeading
  cases permalinkId? e with
  | none => simp [Edit.unchanged]
  | some id => simp

theorem href_permalinkAnchor (config : Config) (id : String) : ∃ p content,
    permalinkAnchor config id = .element "a" (some p) content .empty ∧
      p.get? "href" = some (.string ("#" ++ id)) := by
  refine ⟨_, _, rfl, ?_⟩
  rw [Properties.get?_insert, if_neg (by decide)]
  show (Properties.insert _ _ _).get? "href" = _
  rw [Properties.get?_insert, if_neg (by decide)]
  rfl

/-- A heading with an identifier gets an anchor that leads to it. -/
theorem children_linkHeading (config : Config) {e : Element} {id : String}
    (h : permalinkId? e = some id) : ∃ p content,
    (linkHeading config e).value.children = e.children ++ [.element "a" (some p) content .empty] ∧
      p.get? "href" = some (.string ("#" ++ id)) := by
  obtain ⟨p, content, hanchor, hhref⟩ := href_permalinkAnchor config id
  refine ⟨p, content, ?_, hhref⟩
  unfold linkHeading
  rw [h, ← hanchor]
  rfl

/-- **A permalink has a target unless the identifier is the empty list or the list of an empty
string.**  The anchor that a heading gets leads to the text of its identifier, which counts as present;
such a value has an empty text exactly if it is one of the two lists. -/
theorem linkHeading_target (config : Config) (e : Element) :
    ((linkHeading config e).count ≠ 0 → ∃ value p content,
      e.property? "id" = some value ∧ value.isPresent = true ∧
      (linkHeading config e).value.children =
        e.children ++ [.element "a" (some p) content .empty] ∧
      p.get? "href" = some (.string ("#" ++ value.text))) ∧
    ∀ value : PropertyValue, value.isPresent = true ∧ value.text = "" ↔
      value = .list [] ∨ value = .list [.string ""] := by
  refine ⟨fun h => ?_, fun value => PropertyValue.isPresent_and_text_eq_empty_iff⟩
  obtain ⟨id, hid⟩ := count_linkHeading_ne_zero_iff.1 h
  obtain ⟨-, value, hvalue, hpresent, rfl⟩ := permalinkId?_eq_some_iff.1 hid
  obtain ⟨p, content, hchildren, hhref⟩ := children_linkHeading config hid
  exact ⟨value, p, content, hvalue, hpresent, hchildren, hhref⟩

/-- A heading with the given identifier. -/
def sampleHeading (id : PropertyValue) : Element :=
  ⟨"h1", some (.ofList [("id", id)]), [], .empty⟩

/-- Of two empty strings the joined text is no longer empty. -/
theorem linkHeading_target_sampleHeading :
    (linkHeading {} (sampleHeading (.list [.string "", .string ""]))).count ≠ 0 ∧
    ∃ value p content, (PropertyValue.list [.string "", .string ""]) = value ∧
      (linkHeading {} (sampleHeading (.list [.string "", .string ""]))).value.children =
        [.element "a" (some p) content .empty] ∧
      p.get? "href" = some (.string ("#" ++ value.text)) ∧ value.text ≠ "" := by
  have hcount : (linkHeading {} (sampleHeading (.list [.string "", .string ""]))).count ≠ 0 := by decide
  obtain ⟨hfires, hempty⟩ := linkHeading_target {} (sampleHeading (.list [.string "", .string ""]))
  obtain ⟨value, p, content, hvalue, hpresent, hchildren, hhref⟩ := hfires hcount
  have hid : .list [.string "", .string ""] = value := Option.some.inj hvalue
  refine ⟨hcount, value, p, content, hid, hchildren, hhref, fun htext => ?_⟩
  rcases (hempty value).1 ⟨hpresent, htext⟩ with h | h
  · rw [← hid] at h
    cases h
  · rw [← hid] at h
    cases h

/-- The empty list counts as present and has an empty text, so a heading with it gets a permalink to
nothing. -/
theorem linkHeading_emptyList :
    (PropertyValue.list []).isPresent = true ∧ (PropertyValue.list []).text = "" ∧
    (linkHeading {} (sampleHeading (.list []))).count = 1 ∧
    (linkHeading {} (sampleHeading (.list []))).value.children = [permalinkAnchor {} ""] ∧
    ∃ p content, permalinkAnchor {} "" = .element "a" (some p) content .empty ∧
      p.get? "href" = some (.string "#") :=
  ⟨rfl, rfl, by decide, rfl, href_permalinkAnchor {} ""⟩

end Docs

end DocTree
