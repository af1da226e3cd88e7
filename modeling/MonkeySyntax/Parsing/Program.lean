import MonkeySyntax.Parsing.Expression
import MonkeySyntax.Token.Cursor

/-! # Reading programs

A source gives a program and a list of diagnostics, whatever is in it. The program holds every
statement that could be read.

* `parseStatement`, `parseBlock`, `parseProgram`: the actions for statements, blocks and programs.
* `Parser.ofCursor?`: a parser over the rest of a source.
* `parse`, `parseAs`: a whole source.
-/

namespace MonkeySyntax

namespace Parsing

/-- Reads a **statement**. -/
def parseStatement : ParseM Statement :=
  statement parseExpr

/-- Reads a **block**. -/
def parseBlock : ParseM Block :=
  block parseExpr

/-- Reads one statement of a program and moves on behind it; nothing is given where it is broken.
The trace starts anew behind a statement that could be read. -/
def programItem : ParseM (Option Statement) := do
  let result ← attempt parseStatement
  modify fun p => if result.isSome then p.clearTrace else p
  advance
  pure result

/-- Reads **all statements** up to the end of the source. -/
def parseProgram : ParseM Program := do
  let items ← collectWhile (!currentIs .eof ·) programItem
  pure ⟨items.filterMap id⟩

end Parsing

/-- A parser over what is left under a cursor; none inside a character. -/
def Parser.ofCursor? (grammar : Grammar) (c : Cursor) : Option Parser :=
  c.drain?.map (ofTokens grammar)

/-- What reading a source gives. -/
structure Parsed where
  /-- The statements that could be read. -/
  program : Program
  /-- What is wrong with the source, in the order in which it was found. -/
  diagnostics : List Diagnostic

/-- Reads a program from its tokens by the given grammar. -/
def parseTokens (grammar : Grammar) (tokens : List Token) : Parsed :=
  let (program, p) := Parsing.parseProgram.exec (.ofTokens grammar tokens)
  ⟨program.getD ⟨[]⟩, p.diagnostics.toList⟩

/-- Reads a **named source**. -/
def parseAs (file source : String) : Parsed :=
  parseTokens .standard (tokenize source file)

/-- Reads a **source without a name** of its own. -/
def parse (source : String) : Parsed :=
  parseAs defaultFileName source

end MonkeySyntax
