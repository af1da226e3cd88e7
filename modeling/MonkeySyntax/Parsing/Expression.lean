import MonkeySyntax.Parsing.Statement
import MonkeySyntax.Text.Decimal

/-! # Reading expressions

An expression is read from its first token by a prefix rule and then continued by every operator
that binds tighter than what stands before it.

* `prefixBy`: the expressions that a first token announces.
* `infixBy`: an operator or a call behind an expression.
* `climb`: a first part and all that continues it.
* `exprWithin`, `parseExpr`: whole expressions, each inside one more level of nesting.

All rules but the last two take the reader of inner expressions as a parameter, so that each of them
is a definition without recursion; `exprWithin` closes the circle by recursion on the number of
levels that are left.
-/

namespace MonkeySyntax.Parsing

variable (expr : Power → ParseM Expr)

/-! ### First parts -/

/-- Reads a name. -/
def identifier : ParseM Expr := do
  pure (.identifier (.ofToken (← currentToken)))

/-- Reads a number; one without a value is reported. -/
def integer : ParseM Expr := do
  let token ← currentToken
  match integerValue? token.text with
  | some value => pure (.integer token value)
  | none => reject (.invalidInteger token.text) token

/-- Reads a truth value. -/
def boolean : ParseM Expr := do
  let token ← currentToken
  pure (.boolean token (token.kind == .kwTrue))

/-- Reads an operator and its operand. The operand is missing where it cannot be read. -/
def unary : ParseM Expr := do
  let token ← currentToken
  advance
  let operand ← attempt (expr .unary)
  pure (.prefixOp token token.text operand)

/-- Reads an expression in parentheses, which leave no node of their own. -/
def grouping : ParseM Expr := do
  advance
  let inner ← attempt (expr .lowest)
  let _ ← expect .closeParen
  inner.getM

/-- Reads the block behind `else`, if that comes next. -/
def otherwise : ParseM (Option Block) := do
  if peekIs .kwElse (← get) then
    advance
    let _ ← expect .openBrace
    some <$> block expr
  else
    pure none

/-- Reads `if (<condition>) <block>` with an optional second block. The condition is missing where
it cannot be read. -/
def conditional : ParseM Expr := do
  let token ← currentToken
  let _ ← expect .openParen
  advance
  let condition ← attempt (expr .lowest)
  let _ ← expect .closeParen
  let _ ← expect .openBrace
  let consequence ← block expr
  let alternative ← otherwise expr
  pure (.conditional token condition consequence alternative)

/-- Reads the name of a parameter. -/
def parameter : ParseM Identifier :=
  Identifier.ofToken <$> expect .identifier

/-- Reads the names of parameters from behind the opening parenthesis and stops at the closing
one. -/
def parameters : ParseM (List Identifier) := do
  if peekIs .closeParen (← get) then
    advance
    pure []
  else
    let first ← parameter
    let others ← collectWhile (peekIs .comma) (do advance; parameter)
    let _ ← expect .closeParen
    pure (first :: others)

/-- Reads `fn(<parameters>) <block>`. -/
def function : ParseM Expr := do
  let token ← currentToken
  let _ ← expect .openParen
  let names ← parameters
  let _ ← expect .openBrace
  let body ← block expr
  pure (.function token names body)

/-- Reads the **first part** of an expression by the given rule. -/
def prefixBy : PrefixRule → ParseM Expr
  | .identifier => identifier
  | .integer => integer
  | .boolean => boolean
  | .unary => unary expr
  | .grouping => grouping expr
  | .conditional => conditional expr
  | .function => function expr

/-! ### Continuations -/

/-- Reads the operator and its right operand, which has to bind tighter. The operand is missing
where it cannot be read. -/
def binary (left : Expr) (power : Power) : ParseM Expr := do
  let token ← currentToken
  advance
  let right ← attempt (expr power)
  pure (.infixOp token token.text left right)

/-- Moves on to an argument and reads it; nothing is given where it is broken. -/
def argument : ParseM (Option Expr) := do
  advance
  attempt (expr .lowest)

/-- Reads the arguments of a call from its opening parenthesis and stops at the closing one. A
broken argument does not end the list, but spoils the whole call. -/
def arguments : ParseM (List Expr) := do
  if peekIs .closeParen (← get) then
    advance
    pure []
  else
    let first ← argument expr
    let others ← collectWhile (peekIs .comma) (do advance; argument expr)
    let _ ← expect .closeParen
    ((first :: others).mapM id).getM

/-- Reads the arguments of a call of the expression before it. -/
def call (callee : Expr) : ParseM Expr := do
  let token ← currentToken
  let args ← arguments expr
  pure (.call token callee args)

/-- Reads what **continues an expression** by the given rule, where `power` is that of the
operator. -/
def infixBy (rule : InfixRule) (left : Expr) (power : Power) : ParseM Expr :=
  match rule with
  | .binary => binary expr left power
  | .call => call expr left

/-- Continues an expression while an operator comes next that binds tighter than `power`; at most
the given number of times. -/
def continueWithin (power : Power) : Nat → Expr → ParseM Expr
  | 0, left => pure left
  | n + 1, left => do
    match (← get).operatorAhead? power with
    | none => pure left
    | some op => do
      advance
      continueWithin power n (← infixBy expr op.rule left op.power)

/-! ### Whole expressions -/

/-- Reads a first part and all that **continues** it with operators that bind tighter than
`power`. A token that starts no expression is reported. -/
def climb (power : Power) : ParseM Expr := do
  let p ← get
  match p.grammar.prefixRule? p.current.kind with
  | none => reject (.noExpression p.current.kind) p.current
  | some rule => do
    let left ← prefixBy expr rule
    continueWithin expr power (← get).remaining left

/-- Reads an expression inside one more level of nesting, where `levels` are left. Where none is
left this is reported before anything is looked at. -/
def exprWithin : Nat → Power → ParseM Expr
  | 0, _ => tooDeep
  | levels + 1, power => nested (climb (exprWithin levels) power)

/-- Reads an **expression** whose operators bind tighter than `power`. -/
def parseExpr (power : Power) : ParseM Expr := do
  exprWithin (← get).levels power

end MonkeySyntax.Parsing
