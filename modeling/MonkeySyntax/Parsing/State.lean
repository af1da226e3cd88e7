import MonkeySyntax.Diagnostic.Basic
import MonkeySyntax.Grammar.Rule

/-! # The state of a parser

A parser looks at one token and the one after it, moves forward only, and notes what goes wrong.

* `Parser`: the tokens, the place of the current one, the diagnostics, the trace of what was read
  and the number of open expressions.
* `Parser.current`, `Parser.peek`: the two tokens that are looked at; behind the last token every
  further one is `eof`.
* `Parser.advance`: one token forward.
* `Parser.report`: one more diagnostic.
-/

namespace MonkeySyntax

/-- A **parser** at some point of its work. -/
structure Parser where
  /-- The tokens of the source, closed by `eof`. -/
  tokens : Array Token
  /-- The token that stands behind all others. -/
  eof : Token
  /-- The place of the current token. -/
  index : Nat
  /-- What went wrong so far, in order. -/
  diagnostics : Array Diagnostic
  /-- The texts read since the last complete statement. -/
  traced : Array String
  /-- The number of open expressions. -/
  depth : Nat
  /-- The rules that are followed. -/
  grammar : Grammar

namespace Parser

/-- The token at a place; behind the last one it is `eof`. -/
def tokenAt (p : Parser) (i : Nat) : Token :=
  (p.tokens[i]?).getD p.eof

/-- The **current** token. -/
def current (p : Parser) : Token :=
  p.tokenAt p.index

/-- The token **after the current one**. -/
def peek (p : Parser) : Token :=
  p.tokenAt (p.index + 1)

/-- A bound on the number of tokens that can still be read. -/
def remaining (p : Parser) : Nat :=
  p.tokens.size - p.index + 1

/-- The number of expressions that may still be opened. -/
def levels (p : Parser) : Nat :=
  p.grammar.depthLimit - p.depth

/-- The **trace**: the texts read since the last complete statement, a blank between any two. -/
def trace (p : Parser) : String :=
  " ".intercalate p.traced.toList

/-- The trace with one more text; the empty text of `eof` leaves none. -/
def traceText (p : Parser) (text : String) : Parser :=
  if text.isEmpty then p else { p with traced := p.traced.push text }

/-- A parser at the first of the given tokens, the last of which stands also behind itself. -/
def ofTokens (grammar : Grammar) (tokens : List Token) : Parser :=
  let eof := tokens.getLast?.getD (.endOf defaultFileName 0)
  let p : Parser := ⟨tokens.toArray, eof, 0, #[], #[], 0, grammar⟩
  p.traceText p.current.text

/-- The parser **one token forward**. -/
def advance (p : Parser) : Parser :=
  { p with index := p.index + 1 }.traceText p.peek.text

/-- The parser with **one more diagnostic**. -/
def report (p : Parser) (cause : Cause) (token : Token) : Parser :=
  { p with diagnostics := p.diagnostics.push ⟨cause, token.span.start⟩ }

/-- What is said when a token of some kind was required and another one stands there. -/
def unexpected (p : Parser) (expected : Kind) (token : Token) : Cause :=
  .unexpectedToken expected token.kind p.trace

/-- The parser with an empty trace. -/
def clearTrace (p : Parser) : Parser :=
  { p with traced := #[] }

/-- The operator behind the current token, if it binds tighter than the given power. A semicolon
ends an expression whatever it stands for. -/
def operatorAhead? (p : Parser) (power : Power) : Option Operator :=
  (p.grammar.operator? p.peek.kind).filter fun op =>
    p.peek.kind ≠ .semicolon ∧ power < op.power

/-! ### What the steps leave alone -/

@[simp] theorem traceText_tokens (p : Parser) (text : String) :
    (p.traceText text).tokens = p.tokens := by
  unfold traceText; split <;> rfl

@[simp] theorem traceText_eof (p : Parser) (text : String) :
    (p.traceText text).eof = p.eof := by
  unfold traceText; split <;> rfl

@[simp] theorem traceText_index (p : Parser) (text : String) :
    (p.traceText text).index = p.index := by
  unfold traceText; split <;> rfl

@[simp] theorem traceText_diagnostics (p : Parser) (text : String) :
    (p.traceText text).diagnostics = p.diagnostics := by
  unfold traceText; split <;> rfl

@[simp] theorem traceText_depth (p : Parser) (text : String) :
    (p.traceText text).depth = p.depth := by
  unfold traceText; split <;> rfl

@[simp] theorem traceText_grammar (p : Parser) (text : String) :
    (p.traceText text).grammar = p.grammar := by
  unfold traceText; split <;> rfl

@[simp] theorem advance_tokens (p : Parser) : p.advance.tokens = p.tokens := by simp [advance]

@[simp] theorem advance_eof (p : Parser) : p.advance.eof = p.eof := by simp [advance]

@[simp] theorem advance_index (p : Parser) : p.advance.index = p.index + 1 := by simp [advance]

@[simp] theorem advance_diagnostics (p : Parser) : p.advance.diagnostics = p.diagnostics := by
  simp [advance]

@[simp] theorem advance_depth (p : Parser) : p.advance.depth = p.depth := by simp [advance]

@[simp] theorem advance_grammar (p : Parser) : p.advance.grammar = p.grammar := by simp [advance]

/-- One token forward, the token that was looked ahead at is the current one. -/
@[simp] theorem current_advance (p : Parser) : p.advance.current = p.peek := by
  simp [current, peek, tokenAt]

end Parser

end MonkeySyntax
