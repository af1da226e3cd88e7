import Mathlib.Tactic.Common
import MonkeySyntax.Tree.Basic

/-! # Descent into a tree

From an expression one may step to any expression right below it. Some of these steps lead to an
expression that was read inside the other one, and the others, to a left operand and to a callee, to
one that was read before what continues it.

* `Statement.expr?`: the expression of a statement.
* **`Expr.Child x inner y`** — a step from `x` to `y`, and whether it leads inside.
* **`Expr.Descends x k y`** — a way from `x` down to `y` with `k` steps inside.
* **`Expr.Within n x`** — every way down from `x` has fewer than `n` steps inside, and
  `within_prefixOp`, `within_infixOp`, … — what this asks of the parts of an expression. -/

namespace MonkeySyntax

/-- The expression of a statement, if it is there. -/
def Statement.expr? : Statement → Option Expr
  | binding _ _ value | returning _ value => value
  | expression value => some value

/-- **A step down** from one expression to another. It leads inside unless it goes to a left operand or
to a callee. -/
inductive Expr.Child : Expr → Bool → Expr → Prop where
  /-- The operand of a prefix operator. -/
  | operand {t : Token} {o : String} {y : Expr} : Child (.prefixOp t o (some y)) true y
  /-- The left operand of an infix operator. -/
  | left {t : Token} {o : String} {y : Expr} {r : Option Expr} : Child (.infixOp t o y r) false y
  /-- The right operand of an infix operator. -/
  | right {t : Token} {o : String} {l y : Expr} : Child (.infixOp t o l (some y)) true y
  /-- A condition. -/
  | condition {t : Token} {y : Expr} {a : Block} {b : Option Block} :
    Child (.conditional t (some y) a b) true y
  /-- An expression of the first block. -/
  | consequence {t : Token} {c : Option Expr} {a : Block} {b : Option Block} {s : Statement}
    {y : Expr} (hs : s ∈ a.statements) (hy : s.expr? = some y) : Child (.conditional t c a b) true y
  /-- An expression of the second block. -/
  | alternative {t : Token} {c : Option Expr} {a b : Block} {s : Statement} {y : Expr}
    (hs : s ∈ b.statements) (hy : s.expr? = some y) : Child (.conditional t c a (some b)) true y
  /-- An expression of the body of a function. -/
  | body {t : Token} {names : List Identifier} {b : Block} {s : Statement} {y : Expr}
    (hs : s ∈ b.statements) (hy : s.expr? = some y) : Child (.function t names b) true y
  /-- What is called. -/
  | callee {t : Token} {y : Expr} {xs : List Expr} : Child (.call t y xs) false y
  /-- An argument of a call. -/
  | argument {t : Token} {f y : Expr} {xs : List Expr} (hy : y ∈ xs) : Child (.call t f xs) true y

/-- **A way down** from one expression to another, with its number of steps inside. -/
inductive Expr.Descends : Expr → Nat → Expr → Prop where
  /-- No step at all. -/
  | here {x : Expr} : Descends x 0 x
  /-- One step and a way down from there. -/
  | step {x y z : Expr} {inner : Bool} {k : Nat} (hstep : x.Child inner y) (h : y.Descends k z) :
    Descends x (inner.toNat + k) z

namespace Expr

/-- **The expression stays within `n` levels**: every way down has fewer steps inside. -/
def Within (n : Nat) (x : Expr) : Prop :=
  ∀ k y, x.Descends k y → k < n

end Expr

/-- The expression of the statement, if it is there, stays within the levels. -/
def Statement.Within (n : Nat) (s : Statement) : Prop :=
  ∀ x, s.expr? = some x → x.Within n

/-- The statements of the block stay within the levels. -/
def Block.Within (n : Nat) (b : Block) : Prop :=
  ∀ s ∈ b.statements, s.Within n

namespace Expr

variable {n : Nat} {t : Token} {o : String}

theorem Within.succ {x : Expr} (h : x.Within n) : x.Within (n + 1) :=
  fun k y hy => Nat.lt_succ_of_lt (h k y hy)

/-- **An expression stays within one more level** than what is inside it, and within as many as what
was read before it. -/
theorem within_succ {x : Expr} (h : ∀ inner y, x.Child inner y → y.Within (n + 1 - inner.toNat)) :
    x.Within (n + 1) := by
  intro k z hz
  cases hz with
  | here => exact Nat.succ_pos n
  | @step _ _ _ inner k hstep hrest =>
    have hlt := h _ _ hstep k z hrest
    cases inner <;> simp at hlt ⊢ <;> omega

theorem within_prefixOp {x : Option Expr} (h : ∀ y, x = some y → y.Within n) :
    (prefixOp t o x).Within (n + 1) :=
  within_succ fun
    | _, _, .operand => h _ rfl

theorem within_infixOp {l : Expr} {r : Option Expr} (hl : l.Within (n + 1))
    (hr : ∀ y, r = some y → y.Within n) : (infixOp t o l r).Within (n + 1) :=
  within_succ fun
    | _, _, .left => hl
    | _, _, .right => hr _ rfl

theorem within_conditional {c : Option Expr} {a : Block} {b : Option Block}
    (hc : ∀ y, c = some y → y.Within n) (ha : a.Within n)
    (hb : ∀ e, b = some e → e.Within n) : (conditional t c a b).Within (n + 1) :=
  within_succ fun
    | _, _, .condition => hc _ rfl
    | _, _, .consequence hs hy => ha _ hs _ hy
    | _, _, .alternative hs hy => hb _ rfl _ hs _ hy

theorem within_function {names : List Identifier} {b : Block} (hb : b.Within n) :
    (function t names b).Within (n + 1) :=
  within_succ fun
    | _, _, .body hs hy => hb _ hs _ hy

theorem within_call {f : Expr} {xs : List Expr} (hf : f.Within (n + 1))
    (hxs : ∀ x ∈ xs, x.Within n) : (call t f xs).Within (n + 1) :=
  within_succ fun
    | _, _, .callee => hf
    | _, _, .argument hy => hxs _ hy

end Expr

end MonkeySyntax
