import MonkeySyntax.Text.Unprintable

/-! # Quoted text

A text in double quotes on one line, in which every character can be told apart.

* `escaped`: how one character is written between the quotes.
* `quoted`: the whole text in quotes.
-/

namespace MonkeySyntax

/-- The number of a character in lower-case hexadecimal digits, in braces after `\u`. -/
def numbered (c : Char) : List Char :=
  "\\u\x7b".toList ++ Nat.toDigits 16 c.toNat ++ "\x7d".toList

/-- A character **between quotes**. The quote and the backslash are marked by a backslash, four
controls have letters of their own, and what cannot be printed is given by its number. -/
def escaped (c : Char) : List Char :=
  match c with
  | '"' => ['\\', '"']
  | '\\' => ['\\', '\\']
  | '\n' => ['\\', 'n']
  | '\r' => ['\\', 'r']
  | '\t' => ['\\', 't']
  | '\x00' => ['\\', '0']
  | c => if isUnprintable c then numbered c else [c]

/-- A text **in quotes**. -/
def quoted (text : String) : String :=
  "\"" ++ String.ofList (text.toList.flatMap escaped) ++ "\""

end MonkeySyntax
