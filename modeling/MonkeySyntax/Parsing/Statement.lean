import MonkeySyntax.Parsing.Action
import MonkeySyntax.Tree.Basic

/-! # Reading statements

The rules for statements and blocks, given how expressions are read. A broken statement never stops
the reading of the ones behind it.

* `binding`, `returning`, `expressionStatement`: the three statements.
* `statement`: a statement by the rule of its first token.
* `block`: statements up to a closing brace.
-/

namespace MonkeySyntax.Parsing

variable (expr : Power → ParseM Expr)

/-- Reads `let <name> = <value>` from `let` on, with any semicolons behind it. The value is missing
where it cannot be read. -/
def binding : ParseM Statement := do
  let token ← currentToken
  let name ← expect .identifier
  let _ ← expect .assign
  advance
  let value ← attempt (expr .lowest)
  skipSemicolons
  pure (.binding token (.ofToken name) value)

/-- Reads `return <value>` from `return` on, with any semicolons behind it. The value is missing
where it cannot be read. -/
def returning : ParseM Statement := do
  let token ← currentToken
  advance
  let value ← attempt (expr .lowest)
  skipSemicolons
  pure (.returning token value)

/-- Reads an expression by itself, with one semicolon behind it if there is one. The semicolon is
read also behind an expression that cannot be. -/
def expressionStatement : ParseM Statement := do
  let value ← attempt (expr .lowest)
  advanceIf (peekIs .semicolon)
  Statement.expression <$> value.getM

/-- Reads a statement by the given rule. -/
def statementBy : StatementRule → ParseM Statement
  | .binding => binding expr
  | .returning => returning expr
  | .expression => expressionStatement expr

/-- Reads a **statement** by the rule of the current token; without a rule it is an expression. -/
def statement : ParseM Statement := do
  let p ← get
  statementBy expr ((p.grammar.statementRule? p.current.kind).getD .expression)

/-- Reads one statement of a block and moves on behind it; nothing is given where it is broken. At
the end of the source the closing brace is missed. -/
def blockItem : ParseM (Option Statement) := do
  let p ← get
  if p.current.kind = .eof then
    reject (p.unexpected .closeBrace p.current) p.current
  else
    let result ← attempt (statement expr)
    advance
    pure result

/-- Reads a **block** from its opening brace on and stops at the closing one. -/
def block : ParseM Block := do
  let brace ← currentToken
  advance
  let items ← collectWhile (!currentIs .closeBrace ·) (blockItem expr)
  pure ⟨brace, items.filterMap id⟩

end MonkeySyntax.Parsing
