import DocTree.Text.CharRange

/-!
# Blank characters

The characters with the Unicode property White_Space: spaces, line ends and tabs of every script.
The zero width space and the byte order mark are not among them.
-/

namespace DocTree.Text

/-- The 25 characters with the property White_Space. -/
def blankRanges : List (Nat × Nat) :=
  [ (0x9, 0xD), (0x20, 0x20), (0x85, 0x85), (0xA0, 0xA0), (0x1680, 0x1680), (0x2000, 0x200A),
    (0x2028, 0x2029), (0x202F, 0x202F), (0x205F, 0x205F), (0x3000, 0x3000)]

/-- Whether the character is white space. -/
def isBlank (c : Char) : Bool := inRanges blankRanges c

end DocTree.Text
