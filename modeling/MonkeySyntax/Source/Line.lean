import MonkeySyntax.Source.Position
import MonkeySyntax.Text.Lines

/-! # Lines of a source

A source is cut into lines behind each line feed, which stays with its line.

* `linesOf`: the lines of a text; their concatenation is the text (`flatten_linesOf`).
* `Line`, `lineAt?`: the line that holds a byte offset, with its number and the offset inside it.
-/

namespace MonkeySyntax

/-- The **lines** of a text, each with the line feed that ends it. -/
def linesOf (text : List Char) : List (List Char) :=
  cutBehind (· == '\n') text

@[simp] theorem linesOf_nil : linesOf [] = [] := rfl

/-- Cutting into lines loses nothing. -/
@[simp] theorem flatten_linesOf (text : List Char) : (linesOf text).flatten = text :=
  flatten_cutBehind _ text

/-- A **line** found by an offset in its source. -/
structure Line where
  /-- The number of the line; the first is 1. -/
  number : Nat
  /-- The text of the line with the line feed that ends it. -/
  text : List Char
  /-- The offset looked for, counted in bytes from the start of the line. -/
  offset : Nat
  deriving DecidableEq, Repr

/-- The first of the given lines that reaches beyond the offset, where `number` is that of the first
of them and the offset is counted from its start. -/
def findLine? (number : Nat) (offset : Nat) : List (List Char) → Option Line
  | [] => none
  | line :: lines =>
    if offset < byteLength line then
      some ⟨number, line, offset⟩
    else
      findLine? (number + 1) (offset - byteLength line) lines

/-- The **line at a byte offset**. The offset behind the last character belongs to the last line,
also where that one ends with a line feed; an empty source has an empty first line; beyond the end
there is no line. -/
def lineAt? (source : List Char) (offset : Nat) : Option Line :=
  if byteLength source < offset then
    none
  else
    let lines := linesOf source
    let last := lines.getLast?.getD []
    some ((findLine? 1 offset lines).getD ⟨max 1 lines.length, last, byteLength last⟩)

end MonkeySyntax
