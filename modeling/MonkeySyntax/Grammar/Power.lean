/-! # Binding power

How tightly an operator holds on to its operands.

* `Power`: the levels, weakest first.
* `Power.rank`: the place of a level, which orders them.
-/

namespace MonkeySyntax

/-- A **binding power**. -/
inductive Power where
  /-- Holds nothing: the level of a whole expression. -/
  | lowest
  /-- The level of `==` and `!=`. -/
  | equality
  /-- The level of `<` and `>`. -/
  | comparison
  /-- The level of `+` and `-`. -/
  | sum
  /-- The level of `*` and `/`. -/
  | product
  /-- The level of an operator before its operand. -/
  | unary
  /-- The level of a call. -/
  | call
  deriving DecidableEq, Repr

namespace Power

/-- The place of a level, counted from the weakest. -/
def rank : Power → Nat
  | lowest => 0
  | equality => 1
  | comparison => 2
  | sum => 3
  | product => 4
  | unary => 5
  | call => 6

/-- Weaker levels come first. -/
instance : LT Power := ⟨fun a b => a.rank < b.rank⟩

instance (a b : Power) : Decidable (a < b) := inferInstanceAs (Decidable (a.rank < b.rank))

/-- A level is at most another when it is that one or weaker. -/
instance : LE Power := ⟨fun a b => a.rank ≤ b.rank⟩

instance (a b : Power) : Decidable (a ≤ b) := inferInstanceAs (Decidable (a.rank ≤ b.rank))

theorem le_iff {a b : Power} : a ≤ b ↔ a.rank ≤ b.rank := Iff.rfl

theorem lt_iff {a b : Power} : a < b ↔ a.rank < b.rank := Iff.rfl

/-- Levels of one place are the same. -/
theorem rank_inj {a b : Power} : a.rank = b.rank ↔ a = b := by
  cases a <;> cases b <;> decide

end Power

end MonkeySyntax
