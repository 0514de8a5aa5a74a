/-!
# Replacing a part of a text
-/

namespace DocTree.Text

/-- The text with the first occurrence of `part` replaced; the text as it is if there is none. -/
def replaceFirst (part new text : List Char) : List Char :=
  if part.isPrefixOf text then new ++ text.drop part.length
  else match text with
    | [] => []
    | c :: rest => c :: replaceFirst part new rest

/-- The first occurrence is the one at the beginning, if there is one. -/
theorem replaceFirst_append (part new rest : List Char) :
    replaceFirst part new (part ++ rest) = new ++ rest := by
  have hprefix : part.isPrefixOf (part ++ rest) = true :=
    List.isPrefixOf_iff_prefix.2 (List.prefix_append part rest)
  unfold replaceFirst
  rw [if_pos hprefix, List.drop_left]

end DocTree.Text
