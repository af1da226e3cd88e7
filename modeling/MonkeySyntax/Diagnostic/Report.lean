import MonkeySyntax.Diagnostic.Basic
import MonkeySyntax.Source.Line
import MonkeySyntax.Text.Space

/-! # Reports

A report shows a diagnostic together with the source line that it points at:

```text
Error: UnexpectedToken (expected next token to be '=', got 'INT' parsing: 'let y ...') did you ...
-> shell
  |
1 | let y 10;
  | ------^
```

Texts are padded up to a greatest width only. Where the caret would stand further to the right there is
no report at all.

* `maxWidth`, `rightAligned?`: padding on the left.
* `Line.excerpt?`: the last three lines of a report.
* `Diagnostic.report?`: the whole report.
-/

namespace MonkeySyntax

/-- The **greatest width** to which a text can be padded. -/
def maxWidth : Nat := 65535

/-- A text padded on the left to the given width; a longer text stays as it is. It fails where the
width is above `maxWidth`. -/
def rightAligned? (fill : Char) (width : Nat) (text : List Char) : Option (List Char) :=
  if width ≤ maxWidth then
    some (List.replicate (width - text.length) fill ++ text)
  else
    none

/-- Whether a character counts as indentation. -/
def isIndentation (c : Char) : Bool :=
  c == ' ' || c == '\t'

/-- The text of a line as it is shown: without its indentation and the white space at its end. -/
def Line.shown (line : Line) : List Char :=
  trimEnd (line.text.dropWhile isIndentation)

/-- The column of a line's offset in the text that is shown, counted in bytes; it is 0 inside the
indentation. -/
def Line.column (line : Line) : Nat :=
  line.offset - (line.text.takeWhile isIndentation).length

/-- The line with its number, between a gutter and a caret at the column of the offset. It fails where
one of these cannot be padded. -/
def Line.excerpt? (line : Line) : Option (List Char) := do
  let number := (Nat.repr line.number).toList
  let gutter ← rightAligned? ' ' (number.length + 2) ['|']
  let caret ← rightAligned? '-' (line.column + 1) ['^']
  pure (gutter ++ '\n' :: (number ++ " | ".toList ++ line.shown ++ '\n' ::
    (gutter ++ ' ' :: caret)))

/-- The first line of a report: the name and message of the cause, and the tip if there is one. -/
def Diagnostic.headline (d : Diagnostic) : String :=
  "Error: " ++ d.cause.name ++ " (" ++ d.message ++ ")" ++
    (match d.cause.tip? with
      | none => ""
      | some tip => " " ++ tip)

/-- The **report** of a diagnostic on a source. Where the position is beyond the end of the source
nothing of it can be shown. Making the report fails where the excerpt cannot be made. -/
def Diagnostic.report? (d : Diagnostic) (source : String) : Option String :=
  let heading := d.headline ++ "\n-> " ++ d.position.file ++ "\n"
  match lineAt? source.toList d.position.offset.toNat with
  | none => some heading
  | some line => line.excerpt?.map (heading ++ String.ofList ·)

/-- What there is of the report: nothing where it cannot be made. -/
def Diagnostic.report (d : Diagnostic) (source : String) : String :=
  (d.report? source).getD ""

end MonkeySyntax
