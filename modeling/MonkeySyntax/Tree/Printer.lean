import MonkeySyntax.Tree.Basic

/-! # Printing trees

The canonical text of a tree puts every operator in parentheses, so it shows how operators bind.

* `Expr.display`, `Block.braced`, `Statement.terminated`: the text of a node inside a larger one.
* `Statement.display`, `Block.display`, `Program.display`: the text of a node for a reader; an
  expression by itself ends without a semicolon and statements follow each other without a blank.
* `Program.toSource`: the text of a program that can be read again; every statement ends with a
  semicolon.

A missing child is printed as nothing.
-/

namespace MonkeySyntax

mutual

/-- The **canonical text** of an expression. -/
def Expr.display : Expr → String
  | .identifier id => id.name
  | .integer t _ => t.text
  | .boolean t _ => t.text
  | .prefixOp _ o x => "(" ++ o ++ Expr.display? x ++ ")"
  | .infixOp _ o l x => "(" ++ l.display ++ " " ++ o ++ " " ++ Expr.display? x ++ ")"
  | .conditional t c a e =>
    t.text ++ " (" ++ Expr.display? c ++ ") " ++ a.braced ++ Block.otherwise? e
  | .function t ps b =>
    t.text ++ "(" ++ ", ".intercalate (ps.map (·.name)) ++ ") " ++ b.braced
  | .call _ f xs => f.display ++ "(" ++ ", ".intercalate (Expr.displayAll xs) ++ ")"

/-- The text of a child that may be missing. -/
def Expr.display? : Option Expr → String
  | none => ""
  | some x => x.display

/-- The texts of the arguments of a call. -/
def Expr.displayAll : List Expr → List String
  | [] => []
  | x :: xs => x.display :: Expr.displayAll xs

/-- A block in braces, with a blank after each of its statements. -/
def Block.braced : Block → String
  | ⟨_, ss⟩ => "\x7b " ++ String.join (Statement.spacedAll ss) ++ "\x7d"

/-- The second branch of a choice; nothing where it is left out. -/
def Block.otherwise? : Option Block → String
  | none => ""
  | some b => " else " ++ b.braced

/-- A statement with the semicolon that ends it, so that another one may follow. -/
def Statement.terminated : Statement → String
  | .binding t m x => t.text ++ " " ++ m.name ++ " = " ++ Expr.display? x ++ ";"
  | .returning t x => t.text ++ " " ++ Expr.display? x ++ ";"
  | .expression x => x.display ++ ";"

/-- The statements of a block, each with its semicolon and a blank. -/
def Statement.spacedAll : List Statement → List String
  | [] => []
  | s :: ss => (s.terminated ++ " ") :: Statement.spacedAll ss

end

/-- The texts of the arguments are those of each argument. -/
theorem Expr.displayAll_eq_map (xs : List Expr) : Expr.displayAll xs = xs.map Expr.display := by
  induction xs with
  | nil => rfl
  | cons x xs ih => simp [Expr.displayAll, ih]

/-- A statement for a reader: an expression by itself has no semicolon. -/
def Statement.display : Statement → String
  | .expression x => x.display
  | s => s.terminated

/-- A block for a reader: its statements without the braces. -/
def Block.display (b : Block) : String :=
  String.join (b.statements.map Statement.display)

/-- A program for a reader: its statements one behind the other. -/
def Program.display (p : Program) : String :=
  String.join (p.statements.map Statement.display)

/-- The **source text** of a program: its statements with their semicolons, a blank between any
two. -/
def Program.toSource (p : Program) : String :=
  " ".intercalate (p.statements.map Statement.terminated)

end MonkeySyntax
