import DocTree.Proofs.Docs.Effect

/-!
# Markers and classes as texts

Two facts about the texts that the callout rule reads and writes, both needed where it is applied to
its own results.  The markers taken off a text and what is left of it spell the text
(`join_markersAt`).  And a class is split into names and joined again without a trace, so it may be
taken as one text (`intercalate_classNames`).
-/

namespace DocTree.Docs

/-! ### Markers -/

/-- The markers that are taken off a text, each with the class that it stands for. -/
def markersAt : List (String × String) → String → List (String × String)
  | [], _ => []
  | (marker, class_) :: markers, text =>
    match dropMarker? marker text with
    | none => markersAt markers text
    | some left => (marker, class_) :: markersAt markers left

/-- Where a text begins with a marker, replacing its first occurrence takes the beginning off. -/
theorem dropMarker?_eq_some_iff {marker text left : String} :
    dropMarker? marker text = some left ↔ text = marker ++ left := by
  unfold dropMarker?
  constructor
  · intro h
    split at h
    next hprefix =>
      obtain ⟨behind, hbehind⟩ := List.isPrefixOf_iff_prefix.1 hprefix
      rw [← hbehind, Text.replaceFirst_append] at h
      cases h
      rw [← String.toList_inj, String.toList_append, String.toList_ofList, List.nil_append, hbehind]
    next => cases h
  · rintro rfl
    have hprefix : marker.toList.isPrefixOf (marker.toList ++ left.toList) = true :=
      List.isPrefixOf_iff_prefix.2 (List.prefix_append _ _)
    rw [String.toList_append, if_pos hprefix, Text.replaceFirst_append, List.nil_append,
      String.ofList_toList]

theorem takeMarkers_classes (markers : List (String × String)) (text : String) :
    (takeMarkers markers text).1 = (markersAt markers text).map (·.2) := by
  induction markers generalizing text with
  | nil => rfl
  | cons head markers ih =>
    obtain ⟨marker, class_⟩ := head
    rw [takeMarkers, markersAt]
    cases dropMarker? marker text with
    | none => exact ih text
    | some left => exact congrArg (class_ :: ·) (ih left)

/-- The markers taken off a text and what is left of it spell the text. -/
theorem join_markersAt (markers : List (String × String)) (text : String) :
    String.join ((markersAt markers text).map (·.1)) ++ (takeMarkers markers text).2 = text := by
  induction markers generalizing text with
  | nil => exact String.empty_append
  | cons head markers ih =>
    obtain ⟨marker, class_⟩ := head
    rw [takeMarkers, markersAt]
    cases hdrop : dropMarker? marker text with
    | none => exact ih text
    | some left =>
      rw [List.map_cons, String.join_cons, String.append_assoc]
      exact (congrArg (marker ++ ·) (ih left)).trans (dropMarker?_eq_some_iff.1 hdrop).symm

/-! ### Classes -/

/-- The text of a class, as a list of at most one text; absent and null are none. -/
def classText : Option PropertyValue → List String
  | none | some .null => []
  | some value => [value.text]

theorem intercalate_splitOn (text : String) :
    String.intercalate " " ((text.toList.splitOn ' ').map String.ofList) = text := by
  have hchars : ((text.toList.splitOn ' ').map String.ofList).map String.toList =
      text.toList.splitOn ' ' := by
    rw [List.map_map]
    exact List.map_id'' (fun chars => String.toList_ofList) _
  rw [← String.toList_inj, String.toList_intercalate, hchars]
  exact List.intercalate_splitOn ' '

/-- Texts that are joined may be joined with further ones. -/
theorem intercalate_intercalate {texts : List String} (h : texts ≠ []) (more : List String) :
    String.intercalate " " (String.intercalate " " texts :: more) =
      String.intercalate " " (texts ++ more) := by
  cases more with
  | nil => simp
  | cons text more =>
    have hmore : text :: more ≠ [] := List.cons_ne_nil _ _
    rw [String.intercalate_cons_of_ne_nil hmore, String.intercalate_append_of_ne_nil h hmore]

theorem classNames_some {value : PropertyValue} (h : value ≠ .null) :
    classNames (some value) = (value.text.toList.splitOn ' ').map String.ofList := by
  cases value with
  | null => exact absurd rfl h
  | _ => rfl

theorem classText_some {value : PropertyValue} (h : value ≠ .null) :
    classText (some value) = [value.text] := by
  cases value with
  | null => exact absurd rfl h
  | _ => rfl

/-- The names of a class, joined with further ones, are its text joined with them. -/
theorem intercalate_classNames (class_ : Option PropertyValue) (more : List String) :
    String.intercalate " " (classNames class_ ++ more) =
      String.intercalate " " (classText class_ ++ more) := by
  cases class_ with
  | none => rfl
  | some value =>
    by_cases hnull : value = .null
    · rw [hnull]
      rfl
    · have hne : (value.text.toList.splitOn ' ').map String.ofList ≠ [] := by
        simp [List.splitOn_ne_nil]
      rw [classNames_some hnull, classText_some hnull, ← intercalate_intercalate hne,
        intercalate_splitOn, List.singleton_append]

/-- The classes that a callout gets for its lead text. -/
def classGroup (config : Config) (lead : String) : List String :=
  config.calloutBaseClass :: (markersAt markerClasses lead).map (·.2)

theorem calloutClass_eq (config : Config) (e : Element) (lead : String) :
    calloutClass config e lead =
      String.intercalate " " (classText (e.property? "class") ++ classGroup config lead) := by
  rw [calloutClass, takeMarkers_classes, ← intercalate_classNames]
  rfl

end DocTree.Docs
