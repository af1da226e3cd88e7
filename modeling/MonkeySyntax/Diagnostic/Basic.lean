import MonkeySyntax.Text.Quoted
import MonkeySyntax.Token.Basic

/-! # Diagnostics

What can be wrong with a program, and where.

* `Cause`: the four things that go wrong, each with what a message needs.
* `Cause.name`, `Cause.message`, `Cause.tip?`: how a cause is shown.
* `Diagnostic`: a cause at a position.
-/

namespace MonkeySyntax

/-- The **cause** of a diagnostic. -/
inductive Cause where
  /-- A token of one kind was required and another one was found; the trace is what was read
  since the last complete statement. -/
  | unexpectedToken (expected found : Kind) (trace : String)
  /-- A token cannot start an expression. -/
  | noExpression (kind : Kind)
  /-- A number is too large, or is not a run of digits. -/
  | invalidInteger (literal : String)
  /-- Expressions are nested beyond the limit. -/
  | nestingTooDeep (limit : Nat)
  deriving DecidableEq, Repr

namespace Cause

/-- The **name** of a cause. -/
def name : Cause → String
  | unexpectedToken .. => "UnexpectedToken"
  | noExpression .. => "NoPrefixParseFn"
  | invalidInteger .. => "IntegerParseError"
  | nestingTooDeep .. => "NestingTooDeep"

/-- The **message** of a cause. -/
def message : Cause → String
  | unexpectedToken expected found trace =>
    "expected next token to be '" ++ expected.name ++ "', got '" ++ found.name ++ "' parsing: '" ++
      trace ++ " ...'"
  | noExpression kind => "no prefix parse function for " ++ kind.name ++ " found"
  | invalidInteger literal => "could not parse " ++ quoted literal ++ " as integer"
  | nestingTooDeep limit => "expression nesting exceeds " ++ Nat.repr limit ++ " levels"

/-- What to do about a cause. There is no advice for a character that starts no token. -/
def tip? : Cause → Option String
  | unexpectedToken .. => some "did you forget an operator or a delimiter?"
  | noExpression .illegal => none
  | noExpression kind => some ("`" ++ kind.name ++ "` cannot start an expression")
  | invalidInteger .. => some "integer literals must fit in a signed 64-bit integer"
  | nestingTooDeep .. => some "split the expression up with `let` bindings"

/-- Only an illegal character goes without advice. -/
theorem tip?_eq_none_iff (c : Cause) : c.tip? = none ↔ c = noExpression .illegal := by
  cases c with
  | noExpression kind => cases kind <;> simp [tip?]
  | _ => simp [tip?]

end Cause

/-- A **diagnostic**: a cause at the position of the token that gave rise to it. -/
structure Diagnostic where
  /-- What is wrong. -/
  cause : Cause
  /-- Where it is wrong. -/
  position : Position
  deriving DecidableEq, Repr

/-- The message of a diagnostic is that of its cause. -/
def Diagnostic.message (d : Diagnostic) : String :=
  d.cause.message

end MonkeySyntax
