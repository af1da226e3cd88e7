import MonkeySyntax.Tree.Basic

/-! # Trees of the same shape

Two trees are alike when they have the same nodes with the same values and their tokens are alike,
that is, agree in kind and text. Where the tokens stand is not compared, so the same program written
with other blanks gives a tree that is alike.

* `Expr.alike`, `Block.alike`, `Statement.alike`, `Program.alike`: the comparison.
* `Expr.alike_self` and its companions: every tree is alike to itself.
-/

namespace MonkeySyntax

/-- Identifiers are alike when their tokens are and they have one name. -/
def Identifier.alike (a b : Identifier) : Bool :=
  a.token.alike b.token && a.name == b.name

@[simp] theorem Identifier.alike_self (a : Identifier) : a.alike a = true := by
  simp [alike]

/-- Lists of parameters are alike when they have one length and are alike place by place. -/
def Identifier.allAlike : List Identifier → List Identifier → Bool
  | [], [] => true
  | a :: as, b :: bs => a.alike b && allAlike as bs
  | _, _ => false

@[simp] theorem Identifier.allAlike_self (as : List Identifier) : allAlike as as = true := by
  induction as with
  | nil => rfl
  | cons a as ih => simp [allAlike, ih]

mutual

/-- Expressions are **alike** when they are the same kind of node with alike tokens, equal values
and alike children. -/
def Expr.alike : Expr → Expr → Bool
  | .identifier a, .identifier b => a.alike b
  | .integer t m, .integer u n => t.alike u && m == n
  | .boolean t p, .boolean u q => t.alike u && p == q
  | .prefixOp t o x, .prefixOp u p y => t.alike u && o == p && Expr.alike? x y
  | .infixOp t o l x, .infixOp u p m y => t.alike u && o == p && l.alike m && Expr.alike? x y
  | .conditional t c a e, .conditional u d b f =>
    t.alike u && Expr.alike? c d && a.alike b && Block.alike? e f
  | .function t ps a, .function u qs b => t.alike u && Identifier.allAlike ps qs && a.alike b
  | .call t f xs, .call u g ys => t.alike u && f.alike g && Expr.allAlike xs ys
  | _, _ => false
  termination_by structural x => x

/-- Children that may be missing are alike when both are missing or both are there and alike. -/
def Expr.alike? : Option Expr → Option Expr → Bool
  | none, none => true
  | some x, some y => x.alike y
  | _, _ => false
  termination_by structural x => x

/-- Lists of arguments are alike when they have one length and are alike place by place. -/
def Expr.allAlike : List Expr → List Expr → Bool
  | [], [] => true
  | x :: xs, y :: ys => x.alike y && Expr.allAlike xs ys
  | _, _ => false
  termination_by structural x => x

/-- Blocks are **alike** when their braces are and they hold alike statements. -/
def Block.alike : Block → Block → Bool
  | ⟨t, ss⟩, ⟨u, rs⟩ => t.alike u && Statement.allAlike ss rs
  termination_by structural x => x

/-- Second branches are alike when both are left out or both are there and alike. -/
def Block.alike? : Option Block → Option Block → Bool
  | none, none => true
  | some a, some b => a.alike b
  | _, _ => false
  termination_by structural x => x

/-- Statements are **alike** when they are the same kind of node with alike tokens and children. -/
def Statement.alike : Statement → Statement → Bool
  | .binding t m x, .binding u n y => t.alike u && m.alike n && Expr.alike? x y
  | .returning t x, .returning u y => t.alike u && Expr.alike? x y
  | .expression x, .expression y => x.alike y
  | _, _ => false
  termination_by structural x => x

/-- Lists of statements are alike when they have one length and are alike place by place. -/
def Statement.allAlike : List Statement → List Statement → Bool
  | [], [] => true
  | s :: ss, r :: rs => s.alike r && Statement.allAlike ss rs
  | _, _ => false
  termination_by structural x => x

end

/-- Programs are **alike** when they have alike statements. -/
def Program.alike (p q : Program) : Bool :=
  Statement.allAlike p.statements q.statements

/-! ### Every tree is alike to itself -/

mutual

@[simp] theorem Expr.alike_self : (x : Expr) → x.alike x = true
  | .identifier _ | .integer _ _ | .boolean _ _ => by simp [Expr.alike]
  | .prefixOp _ _ x => by simp [Expr.alike, Expr.alike?_self x]
  | .infixOp _ _ l x => by simp [Expr.alike, Expr.alike_self l, Expr.alike?_self x]
  | .conditional _ c a e => by
    simp [Expr.alike, Expr.alike?_self c, Block.alike_self a, Block.alike?_self e]
  | .function _ _ a => by simp [Expr.alike, Block.alike_self a]
  | .call _ f xs => by simp [Expr.alike, Expr.alike_self f, Expr.allAlike_self xs]

@[simp] theorem Expr.alike?_self : (x : Option Expr) → Expr.alike? x x = true
  | none => rfl
  | some x => by simp [Expr.alike?, Expr.alike_self x]

@[simp] theorem Expr.allAlike_self : (xs : List Expr) → Expr.allAlike xs xs = true
  | [] => rfl
  | x :: xs => by simp [Expr.allAlike, Expr.alike_self x, Expr.allAlike_self xs]

@[simp] theorem Block.alike_self : (b : Block) → b.alike b = true
  | ⟨_, ss⟩ => by simp [Block.alike, Statement.allAlike_self ss]

@[simp] theorem Block.alike?_self : (b : Option Block) → Block.alike? b b = true
  | none => rfl
  | some b => by simp [Block.alike?, Block.alike_self b]

@[simp] theorem Statement.alike_self : (s : Statement) → s.alike s = true
  | .binding _ _ x => by simp [Statement.alike, Expr.alike?_self x]
  | .returning _ x => by simp [Statement.alike, Expr.alike?_self x]
  | .expression x => by simp [Statement.alike, Expr.alike_self x]

@[simp] theorem Statement.allAlike_self : (ss : List Statement) → Statement.allAlike ss ss = true
  | [] => rfl
  | s :: ss => by simp [Statement.allAlike, Statement.alike_self s, Statement.allAlike_self ss]

end

/-- A program is alike to itself. -/
@[simp] theorem Program.alike_self (p : Program) : p.alike p = true := by
  simp [alike]

end MonkeySyntax
