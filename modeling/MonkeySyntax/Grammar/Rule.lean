import MonkeySyntax.Grammar.Power
import MonkeySyntax.Token.Kind

/-! # Grammars

A grammar says, for each kind of token, which rule reads an expression that starts with it, which
rule continues an expression with it, and which rule reads a statement that starts with it. It is a
value, so that rules can be added to it.

* `PrefixRule`, `InfixRule`, `StatementRule`: the rules.
* `Operator`: a rule that continues an expression, with its binding power.
* `Grammar`: the three tables and the limit on nesting.
* `Grammar.standard`: the grammar of the language.
* `Grammar.withPrefixRule` and its companions: a grammar with one more rule.
-/

namespace MonkeySyntax

/-- A rule that reads an **expression from its first token**. -/
inductive PrefixRule where
  /-- A name. -/
  | identifier
  /-- A number. -/
  | integer
  /-- A truth value. -/
  | boolean
  /-- An operator before its operand. -/
  | unary
  /-- An expression in parentheses. -/
  | grouping
  /-- A choice between blocks. -/
  | conditional
  /-- A function. -/
  | function
  deriving DecidableEq, Repr

/-- A rule that **continues an expression** at the token behind it. -/
inductive InfixRule where
  /-- An operator between two operands. -/
  | binary
  /-- A call with its arguments. -/
  | call
  deriving DecidableEq, Repr

/-- A rule that reads a **statement from its first token**. -/
inductive StatementRule where
  /-- A name bound to a value. -/
  | binding
  /-- A value returned. -/
  | returning
  /-- An expression by itself. -/
  | expression
  deriving DecidableEq, Repr

/-- An **operator**: how it continues an expression and how tightly it binds. -/
structure Operator where
  /-- The rule that reads what belongs to the operator. -/
  rule : InfixRule
  /-- How tightly the operator binds. -/
  power : Power
  deriving DecidableEq, Repr

/-- A **grammar**: a rule for each kind of token that has one, in each of the three places, and how
deeply expressions may nest. -/
structure Grammar where
  /-- The rule for an expression that starts with a kind. -/
  prefixRule? : Kind → Option PrefixRule
  /-- The operator that a kind stands for behind an expression. -/
  operator? : Kind → Option Operator
  /-- The rule for a statement that starts with a kind; without one it is an expression. -/
  statementRule? : Kind → Option StatementRule
  /-- How many expressions may be open at once. -/
  depthLimit : Nat

namespace Grammar

/-- The **binding power** of a kind behind an expression; what is no operator binds nothing. -/
def power (g : Grammar) (k : Kind) : Power :=
  match g.operator? k with
  | some op => op.power
  | none => .lowest

/-- The expressions of the language by their first token. -/
def standardPrefixRule? : Kind → Option PrefixRule
  | .identifier => some .identifier
  | .integer => some .integer
  | .kwTrue | .kwFalse => some .boolean
  | .bang | .minus => some .unary
  | .openParen => some .grouping
  | .kwIf => some .conditional
  | .kwFn => some .function
  | _ => none

/-- The operators of the language. -/
def standardOperator? : Kind → Option Operator
  | .equals | .notEquals => some ⟨.binary, .equality⟩
  | .less | .greater => some ⟨.binary, .comparison⟩
  | .plus | .minus => some ⟨.binary, .sum⟩
  | .star | .slash => some ⟨.binary, .product⟩
  | .openParen => some ⟨.call, .call⟩
  | _ => none

/-- The statements of the language that are not expressions. -/
def standardStatementRule? : Kind → Option StatementRule
  | .kwLet => some .binding
  | .kwReturn => some .returning
  | _ => none

/-- The **grammar of the language**. No more than 256 expressions may be open at once. -/
def standard : Grammar where
  prefixRule? := standardPrefixRule?
  operator? := standardOperator?
  statementRule? := standardStatementRule?
  depthLimit := 256

/-- A grammar in which expressions that start with a kind follow the given rule. -/
def withPrefixRule (g : Grammar) (k : Kind) (rule : PrefixRule) : Grammar :=
  { g with prefixRule? := fun j => if j = k then some rule else g.prefixRule? j }

/-- A grammar in which a kind is the given operator. -/
def withOperator (g : Grammar) (k : Kind) (op : Operator) : Grammar :=
  { g with operator? := fun j => if j = k then some op else g.operator? j }

/-- A grammar in which statements that start with a kind follow the given rule. -/
def withStatementRule (g : Grammar) (k : Kind) (rule : StatementRule) : Grammar :=
  { g with statementRule? := fun j => if j = k then some rule else g.statementRule? j }

/-- A kind that was made an operator has the power of that operator. -/
@[simp] theorem power_withOperator (g : Grammar) (k : Kind) (op : Operator) :
    (g.withOperator k op).power k = op.power := by
  simp [power, withOperator]

end Grammar

end MonkeySyntax
