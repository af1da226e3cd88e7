import Mathlib.Data.List.Chain
import Mathlib.Logic.Relation
import MonkeySyntax.Proofs.Tree.Descent

/-! # The height of a tree

The height of an expression is the number of expressions one below the other on the longest way down
from it, whatever children the way leads through.

* **`Expr.Below x y`** — one or more steps lead down from `x` to `y`.
* **`Expr.Way x n ys`** — a way down from `x` step by step, with `n` steps that do not lead inside.
* **`Expr.height`** — the height of an expression; `Child.height_lt` and `Expr.exists_height_eq` — it is
  one more than the greatest height of a child.
* `Expr.length_le_height`, `Expr.exists_way` — no chain is longer, and one way is as long. -/

namespace MonkeySyntax

namespace Expr

/-- **`y` is below `x`**: one or more steps lead down to it, through any child. -/
def Below : Expr → Expr → Prop :=
  Relation.TransGen fun x y => ∃ inner, x.Child inner y

/-- **A way down** from an expression to others, each a child of the one before. Counted are the steps that
do not lead inside: those to a left operand and to a callee. -/
inductive Way : Expr → Nat → List Expr → Prop where
  /-- No step at all. -/
  | here {x : Expr} : Way x 0 []
  /-- One step and a way down from there. -/
  | step {x y : Expr} {inner : Bool} {n : Nat} {ys : List Expr} (hstep : x.Child inner y)
    (h : y.Way n ys) : Way x ((!inner).toNat + n) (y :: ys)

end Expr

mutual

/-- **The height of an expression**: the number of expressions on the longest way down from it. -/
def Expr.height : Expr → Nat
  | .identifier _ | .integer _ _ | .boolean _ _ => 1
  | .prefixOp _ _ x => Expr.height? x + 1
  | .infixOp _ _ l x => max l.height (Expr.height? x) + 1
  | .conditional _ c a e => max (Expr.height? c) (max a.height (Block.alternativeHeight e)) + 1
  | .function _ _ b => b.height + 1
  | .call _ f xs => max f.height (Expr.heightAll xs) + 1

/-- The height of a child that may be missing. -/
def Expr.height? : Option Expr → Nat
  | none => 0
  | some x => x.height

/-- The greatest height of the arguments of a call. -/
def Expr.heightAll : List Expr → Nat
  | [] => 0
  | x :: xs => max x.height (Expr.heightAll xs)

/-- The greatest height of the expressions of a block. -/
def Block.height : Block → Nat
  | ⟨_, ss⟩ => Statement.heightAll ss

/-- The height of a second branch that may be left out. -/
def Block.alternativeHeight : Option Block → Nat
  | none => 0
  | some b => b.height

/-- The height of the expression of a statement. -/
def Statement.height : Statement → Nat
  | .binding _ _ x | .returning _ x => Expr.height? x
  | .expression x => x.height

/-- The greatest height of some statements. -/
def Statement.heightAll : List Statement → Nat
  | [] => 0
  | s :: ss => max s.height (Statement.heightAll ss)

end

/-- The height of a statement is that of its expression, if it is there. -/
theorem Statement.height_eq (s : Statement) : s.height = Expr.height? s.expr? := by
  cases s <;> rfl

/-- Expressions in a block are no higher than the block. -/
theorem Block.height_le {b : Block} {s : Statement} {y : Expr} (hs : s ∈ b.statements)
    (hy : s.expr? = some y) : y.height ≤ b.height := by
  obtain ⟨t, ss⟩ := b
  have hheight : s.height = y.height := by rw [s.height_eq, hy, Expr.height?]
  rw [← hheight, Block.height]
  induction ss with
  | nil => exact absurd hs List.not_mem_nil
  | cons r rs ih =>
    rw [Statement.heightAll]
    rcases List.mem_cons.1 hs with rfl | hs
    · exact Nat.le_max_left _ _
    · exact Nat.le_trans (ih hs) (Nat.le_max_right _ _)

namespace Expr

variable {x y : Expr} {inner : Bool} {xs : List Expr}

theorem height_le_heightAll (h : x ∈ xs) : x.height ≤ heightAll xs := by
  induction xs with
  | nil => exact absurd h List.not_mem_nil
  | cons y ys ih =>
    rw [heightAll]
    rcases List.mem_cons.1 h with rfl | h
    · exact Nat.le_max_left _ _
    · exact Nat.le_trans (ih h) (Nat.le_max_right _ _)

/-- **A child is lower** than its parent. -/
theorem Child.height_lt (h : x.Child inner y) : y.height < x.height := by
  cases h with
  | operand | left | right | condition | callee =>
    simp only [height, height?]
    omega
  | consequence hs hy | body hs hy =>
    have hle := Block.height_le hs hy
    simp only [height]
    omega
  | alternative hs hy =>
    have hle := Block.height_le hs hy
    simp only [height, Block.alternativeHeight]
    omega
  | argument hy =>
    have hle := height_le_heightAll hy
    simp only [height]
    omega

/-- The number is the height of a child, or zero. -/
def OfChild (x : Expr) (n : Nat) : Prop :=
  n = 0 ∨ ∃ inner y, x.Child inner y ∧ n = y.height

theorem OfChild.max {m n : Nat} (hm : x.OfChild m) (hn : x.OfChild n) : x.OfChild (max m n) := by
  rcases Nat.le_total m n with hle | hle
  · rwa [Nat.max_eq_right hle]
  · rwa [Nat.max_eq_left hle]

theorem Child.ofChild (h : x.Child inner y) : x.OfChild y.height :=
  .inr ⟨inner, y, h, rfl⟩

theorem ofChild_height? {o : Option Expr} (h : ∀ y, o = some y → x.Child true y) :
    x.OfChild (height? o) := by
  cases o with
  | none => exact .inl rfl
  | some y => exact (h y rfl).ofChild

theorem ofChild_heightAll (h : ∀ y ∈ xs, x.Child true y) : x.OfChild (heightAll xs) := by
  induction xs with
  | nil => exact .inl rfl
  | cons y ys ih =>
    obtain ⟨hy, hys⟩ := List.forall_mem_cons.1 h
    exact hy.ofChild.max (ih hys)

theorem ofChild_block {b : Block}
    (h : ∀ s ∈ b.statements, ∀ y, s.expr? = some y → x.Child true y) : x.OfChild b.height := by
  obtain ⟨t, ss⟩ := b
  rw [Block.height]
  induction ss with
  | nil => exact .inl rfl
  | cons s ss ih =>
    obtain ⟨hs, hss⟩ := List.forall_mem_cons.1 h
    rw [Statement.heightAll, s.height_eq]
    exact (ofChild_height? hs).max (ih hss)

/-- **The height is one more than that of a child**, unless there is none. -/
theorem exists_height_eq (x : Expr) : ∃ n, x.height = n + 1 ∧ x.OfChild n := by
  cases x with
  | identifier | integer | boolean => exact ⟨0, rfl, .inl rfl⟩
  | prefixOp t o x =>
    refine ⟨_, rfl, ofChild_height? ?_⟩
    rintro y rfl
    exact .operand
  | infixOp t o l x =>
    refine ⟨_, rfl, Child.left.ofChild.max (ofChild_height? ?_)⟩
    rintro y rfl
    exact .right
  | conditional t c a e =>
    refine ⟨_, rfl, (ofChild_height? ?_).max
      ((ofChild_block fun _ hs _ hy => .consequence hs hy).max ?_)⟩
    · rintro y rfl
      exact .condition
    · cases e with
      | none => exact .inl rfl
      | some b => exact ofChild_block fun _ hs _ hy => .alternative hs hy
  | function t ps b => exact ⟨_, rfl, ofChild_block fun _ hs _ hy => .body hs hy⟩
  | call t f xs => exact ⟨_, rfl, Child.callee.ofChild.max (ofChild_heightAll fun _ hy => .argument hy)⟩

/-- What is below an expression is lower. -/
theorem Below.height_lt (h : x.Below y) : y.height < x.height := by
  induction h with
  | single h =>
    obtain ⟨_, h⟩ := h
    exact h.height_lt
  | tail _ h ih =>
    obtain ⟨_, h⟩ := h
    exact h.height_lt.trans ih

/-- **No chain is longer than the expression is high.** -/
theorem length_le_height (h : (x :: xs).IsChain Below) : (x :: xs).length ≤ x.height := by
  induction xs generalizing x with
  | nil =>
    obtain ⟨n, hn, -⟩ := x.exists_height_eq
    rw [hn]
    exact Nat.le_add_left _ _
  | cons y ys ih =>
    obtain ⟨hxy, hys⟩ := List.isChain_cons_cons.1 h
    exact Nat.succ_le_of_lt (Nat.lt_of_le_of_lt (ih hys) hxy.height_lt)

/-- What lies on a way is a chain. -/
theorem Way.isChain {n : Nat} (h : x.Way n xs) : (x :: xs).IsChain Below := by
  induction h with
  | here => exact .singleton _
  | step hstep _ ih => exact .cons_cons (.single ⟨_, hstep⟩) ih

/-- **There is a way down as long as the expression is high.** -/
theorem exists_way (x : Expr) : ∃ n xs, x.Way n xs ∧ (x :: xs).length = x.height := by
  induction hheight : x.height using Nat.strong_induction_on generalizing x with
  | _ m ih =>
    subst hheight
    obtain ⟨m, hm, rfl | ⟨inner, y, hchild, rfl⟩⟩ := x.exists_height_eq
    · exact ⟨0, [], .here, hm.symm⟩
    · obtain ⟨n, ys, hys, hlength⟩ := ih y.height hchild.height_lt y rfl
      exact ⟨_, y :: ys, .step hchild hys, by rw [hm, ← hlength]; rfl⟩

end Expr

end MonkeySyntax
