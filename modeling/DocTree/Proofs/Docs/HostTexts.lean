import DocTree.Proofs.Docs.CalloutRule
import DocTree.Proofs.Docs.Markers
import DocTree.Proofs.Docs.PermalinkTarget
import DocTree.Proofs.Property.HostText

/-!
# Numbers in links and classes

The rules take the text of a property in two places: a permalink leads to the text of the identifier, and
the class of a callout begins with the text of the class that the blockquote has.  If the value is a
number, what they write is what a scripting host would make of it exactly if the text of the number is
that of the host (`number_text_isHostText_iff`).
-/

namespace DocTree.Docs

open Binary64

variable {x : Binary64.Finite} {config : Config} {e : Element}

/-- A heading with a number for an identifier gets a permalink to the text of the number, unless that is
zero. -/
theorem linkHeading_number (htag : e.tag ∈ permalinkTags)
    (hid : e.property? "id" = some (.number (.finite x))) (hsteps : x.steps ≠ 0) :
    ∃ p content,
      (linkHeading config e).value.children = e.children ++ [.element "a" (some p) content .empty] ∧
      p.get? "href" = some (.string ("#" ++ PropertyValue.numberText (.finite x))) := by
  have hpresent : (PropertyValue.number (.finite x)).isPresent = true := by
    simpa [PropertyValue.isPresent, isZero] using hsteps
  exact children_linkHeading config (permalinkId?_eq_some_iff.2 ⟨htag, _, hid, hpresent, rfl⟩)

/-- The class of a callout that has a number for a class begins with the text of the number. -/
theorem markCallout_number {paragraph : Nat} {lead : String}
    (hlead : calloutLead? e = some (paragraph, lead))
    (hclass : e.property? "class" = some (.number (.finite x))) :
    ∃ styled, markCallout config e = .ok styled ∧ styled.value.property? "class" =
      some (.string (String.intercalate " "
        (PropertyValue.numberText (.finite x) :: classGroup config lead))) := by
  have hjoined : calloutClass config e lead = String.intercalate " "
      (PropertyValue.numberText (.finite x) :: classGroup config lead) := by
    rw [calloutClass_eq, hclass]
    rfl
  refine ⟨_, markCallout_of_calloutLead? hlead, ?_⟩
  rw [hjoined, Element.property?, Option.bind_some, Properties.get?_insert, if_pos rfl]

/-- **The text of a number is that of a scripting host exactly for zero, of either sign, and for the
numbers from 10⁻⁶ on and below 10²¹.**  So it is for the number by itself and for the number in a list.
Its digits are always those of a shortest decimal, as in the host; elsewhere it is the notation that
differs, since they are all written in place.  This text is what a permalink leads to and what the class
of a callout begins with. -/
theorem number_text_isHostText_iff (x : Binary64.Finite) :
    (x.IsHostText (PropertyValue.number (.finite x)).text ↔ x.steps = 0 ∨ x.InPlainRange) ∧
    (x.IsHostText (PropertyItem.number (.finite x)).text ↔ x.steps = 0 ∨ x.InPlainRange) ∧
    (x.steps ≠ 0 → ∃ d : Decimal, d.Shortest x ∧
      (PropertyValue.number (.finite x)).text.toList =
        if x.negative then '-' :: d.positional false else d.positional false) ∧
    (∀ (config : Config) (e : Element), e.tag ∈ permalinkTags →
      e.property? "id" = some (.number (.finite x)) → x.steps ≠ 0 → ∃ p content,
        (linkHeading config e).value.children =
          e.children ++ [.element "a" (some p) content .empty] ∧
        p.get? "href" = some (.string ("#" ++ (PropertyValue.number (.finite x)).text))) ∧
    ∀ (config : Config) (e : Element) (paragraph : Nat) (lead : String),
      calloutLead? e = some (paragraph, lead) →
      e.property? "class" = some (.number (.finite x)) → ∃ styled,
        markCallout config e = .ok styled ∧ styled.value.property? "class" =
          some (.string (String.intercalate " "
            ((PropertyValue.number (.finite x)).text :: classGroup config lead))) := by
  refine ⟨PropertyValue.isHostText_numberText_iff, PropertyValue.isHostText_numberText_iff,
    fun hsteps => ?_, fun _ _ htag hid hsteps => linkHeading_number htag hid hsteps,
    fun _ _ _ _ hlead hclass => markCallout_number hlead hclass⟩
  exact ⟨_, Finite.shortest_isShortest .up hsteps, PropertyValue.toList_numberText hsteps⟩

/-- A heading with 10²¹ for an identifier gets a permalink to the number with all its zeros. -/
theorem number_text_isHostText_iff_sextillion :
    ¬ PropertyValue.sextillion.IsHostText "1000000000000000000000" ∧
    ∃ p content,
      (linkHeading {} (sampleHeading (.number (.finite PropertyValue.sextillion)))).value.children =
        [.element "a" (some p) content .empty] ∧
      p.get? "href" = some (.string "#1000000000000000000000") := by
  obtain ⟨htext, -, -, hlink, -⟩ := number_text_isHostText_iff PropertyValue.sextillion
  have hdigits : (PropertyValue.number (.finite PropertyValue.sextillion)).text =
      "1000000000000000000000" := PropertyValue.numberText_sextillion
  rw [hdigits] at htext
  obtain ⟨p, content, hchildren, hhref⟩ :=
    hlink {} (sampleHeading (.number (.finite PropertyValue.sextillion))) (by decide) rfl
      PropertyValue.steps_sextillion
  rw [hdigits] at hhref
  refine ⟨fun hhost => ?_, p, content, hchildren, hhref⟩
  exact (htext.1 hhost).elim PropertyValue.steps_sextillion PropertyValue.not_inPlainRange_sextillion

/-- A scripting host writes 10²¹ with a power of ten; the text of the property value has all zeros, and
is no text of the host. -/
theorem sextillion_text_not_isHostText : PropertyValue.sextillion.IsHostText "1e+21" ∧
    (PropertyValue.number (.finite PropertyValue.sextillion)).text = "1000000000000000000000" ∧
    ¬ PropertyValue.sextillion.IsHostText
      (PropertyValue.number (.finite PropertyValue.sextillion)).text := by
  refine ⟨PropertyValue.isHostText_sextillion, PropertyValue.numberText_sextillion, fun hhost => ?_⟩
  exact (PropertyValue.isHostText_numberText_iff.1 hhost).elim PropertyValue.steps_sextillion
    PropertyValue.not_inPlainRange_sextillion

end DocTree.Docs
