import DocTree.Text.Visible

/-!
# Quoted text in messages

A message quotes a text between double quotes and shows every character of it: quotes, backslashes
and the usual controls behind a backslash, any other hidden character by its code point.
-/

namespace DocTree.Text

/-- A character as a message shows it. -/
def showChar (c : Char) : List Char :=
  match c with
  | '"' => ['\\', '"']
  | '\\' => ['\\', '\\']
  | '\n' => ['\\', 'n']
  | '\r' => ['\\', 'r']
  | '\t' => ['\\', 't']
  | '\x00' => ['\\', '0']
  | c => if isVisible c then [c] else ['\\', 'u', '{'] ++ Nat.toDigits 16 c.toNat ++ ['}']

/-- A text as a message quotes it. -/
def quoted (s : String) : String :=
  String.ofList ('"' :: s.toList.flatMap showChar ++ ['"'])

end DocTree.Text
