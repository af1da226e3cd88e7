import MonkeySyntax.Token.Basic

/-! # Syntax trees

A program is a list of statements; a statement binds a name, returns a value or is an expression.
Every node but an expression statement and the program itself keeps the token that it was built
from.

* `Identifier`, `Expr`, `Block`, `Statement`, `Program`: the nodes.
* `Expr.token`, `Statement.token`: the token that a node was built from.
* `Program.literal`: the text of the first token of a program.

A child that may be missing after a reported error is an `Option`: the operand of a prefix operator,
the right operand of an infix operator, a condition, and the value of a binding or a return.
-/

namespace MonkeySyntax

/-- A **name**: a reference, the name that a binding introduces, or a parameter. -/
structure Identifier where
  /-- The word that was read. -/
  token : Token
  /-- The name that it stands for. -/
  name : String
  deriving DecidableEq, Repr

/-- The identifier that a word is read as: its name is the text of the word. -/
def Identifier.ofToken (token : Token) : Identifier :=
  ⟨token, token.text⟩

@[simp] theorem Identifier.token_ofToken (t : Token) : (ofToken t).token = t := rfl

@[simp] theorem Identifier.name_ofToken (t : Token) : (ofToken t).name = t.text := rfl

mutual

/-- An **expression**. -/
inductive Expr where
  /-- A name. -/
  | identifier (id : Identifier)
  /-- A number. -/
  | integer (token : Token) (value : Int)
  /-- A truth value. -/
  | boolean (token : Token) (value : Bool)
  /-- An operator before its operand. -/
  | prefixOp (token : Token) (operator : String) (operand : Option Expr)
  /-- An operator between its operands. -/
  | infixOp (token : Token) (operator : String) (left : Expr) (right : Option Expr)
  /-- A choice between two blocks; the second may be left out. -/
  | conditional (token : Token) (condition : Option Expr) (consequence : Block)
      (alternative : Option Block)
  /-- A function with its parameters. -/
  | function (token : Token) (parameters : List Identifier) (body : Block)
  /-- A call; its token is the opening parenthesis. -/
  | call (token : Token) (callee : Expr) (arguments : List Expr)

/-- A **block**: statements between braces. -/
structure Block where
  /-- The opening brace. -/
  brace : Token
  /-- The statements in order. -/
  statements : List Statement

/-- A **statement**. -/
inductive Statement where
  /-- A name bound to a value. -/
  | binding (token : Token) (target : Identifier) (value : Option Expr)
  /-- A value returned. -/
  | returning (token : Token) (value : Option Expr)
  /-- An expression by itself. -/
  | expression (value : Expr)

end

/-- A **program**: the statements of a source in order. -/
structure Program where
  /-- The statements in order. -/
  statements : List Statement

/-- The token that an expression was built from. -/
def Expr.token : Expr → Token
  | .identifier id => id.token
  | .integer t _ | .boolean t _ | .prefixOp t _ _ | .infixOp t _ _ _ | .conditional t _ _ _
  | .function t _ _ | .call t _ _ => t

/-- The token that a statement was built from; for an expression by itself, that of the
expression. -/
def Statement.token : Statement → Token
  | .binding t _ _ | .returning t _ => t
  | .expression e => e.token

/-- The text of the token that the first statement was built from; empty without statements. -/
def Program.literal (p : Program) : String :=
  (p.statements.head?.map (·.token.text)).getD ""

end MonkeySyntax
