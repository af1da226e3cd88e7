import MonkeySyntax.Proofs.Tree.WellFormed

/-! # What a tree is made of

A tree is looked at as the list of its nodes in the order of the source: names, numbers, signs, the
keywords and braces that open something, and the places where a child is missing.

* **`Item`** — one node of a tree without its children, or a missing child.
* **`Expr.items`**, `Block.items`, `Statement.items`, **`Program.items`** — the items of a tree in the
  order of the source: an operator stands between its operands, a call behind its callee.
* `Program.tokens`, `Program.calls` — the tokens that a program keeps, and those among them that are
  the parentheses of its calls.
* `Program.absences` — the number of its missing children. -/

namespace MonkeySyntax

/-- **One node** of a tree without its children, or the place of a missing child. -/
inductive Item where
  /-- A name: a reference, the name that a binding introduces, or a parameter. -/
  | name (id : Identifier)
  /-- A number. -/
  | number (token : Token) (value : Int)
  /-- A truth value. -/
  | truth (token : Token) (value : Bool)
  /-- An operator before its operand. -/
  | prefixSign (token : Token) (operator : String)
  /-- An operator between its operands. -/
  | infixSign (token : Token) (operator : String)
  /-- A choice. -/
  | choice (token : Token)
  /-- A function. -/
  | function (token : Token)
  /-- The opening parenthesis of a call. -/
  | call (token : Token)
  /-- The opening brace of a block. -/
  | brace (token : Token)
  /-- A binding. -/
  | binding (token : Token)
  /-- A return. -/
  | returning (token : Token)
  /-- A missing operand, condition or value. -/
  | absent
  deriving DecidableEq, Repr

/-- The token that an item keeps. -/
def Item.token? : Item → Option Token
  | .name i => some i.token
  | .number t _ | .truth t _ | .prefixSign t _ | .infixSign t _ | .choice t | .function t | .call t
  | .brace t | .binding t | .returning t => some t
  | .absent => none

/-- The opening parenthesis, if the item is that of a call. -/
def Item.call? : Item → Option Token
  | .call t => some t
  | _ => none

/-- The parenthesis of a call is the token that it keeps. -/
theorem Item.token?_of_call? {item : Item} {t : Token} (h : item.call? = some t) :
    item.token? = some t := by
  cases item with
  | call => exact h
  | _ => exact absurd h (by simp [call?])

mutual

/-- **The items of an expression** in the order of the source. -/
def Expr.items : Expr → List Item
  | .identifier i => [.name i]
  | .integer t n => [.number t n]
  | .boolean t b => [.truth t b]
  | .prefixOp t o x => .prefixSign t o :: Expr.items? x
  | .infixOp t o l x => l.items ++ .infixSign t o :: Expr.items? x
  | .conditional t c a e =>
    .choice t :: (Expr.items? c ++ (a.items ++ Block.alternativeItems e))
  | .function t ps b => .function t :: (ps.map .name ++ b.items)
  | .call t f xs => f.items ++ .call t :: Expr.allItems xs

/-- The items of a child that may be missing. -/
def Expr.items? : Option Expr → List Item
  | none => [.absent]
  | some x => x.items

/-- The items of the arguments of a call. -/
def Expr.allItems : List Expr → List Item
  | [] => []
  | x :: xs => x.items ++ Expr.allItems xs

/-- **The items of a block**: its brace and then those of its statements. -/
def Block.items : Block → List Item
  | ⟨t, ss⟩ => .brace t :: Statement.allItems ss

/-- The items of a second branch; one that is left out is not missing. -/
def Block.alternativeItems : Option Block → List Item
  | none => []
  | some b => b.items

/-- **The items of a statement.** -/
def Statement.items : Statement → List Item
  | .binding t m x => .binding t :: .name m :: Expr.items? x
  | .returning t x => .returning t :: Expr.items? x
  | .expression x => x.items

/-- The items of a list of statements. -/
def Statement.allItems : List Statement → List Item
  | [] => []
  | s :: ss => s.items ++ Statement.allItems ss

end

/-- The items of the arguments are those of each argument. -/
theorem Expr.allItems_eq_flatMap (xs : List Expr) : Expr.allItems xs = xs.flatMap Expr.items := by
  induction xs with
  | nil => rfl
  | cons x xs ih => rw [allItems, ih, List.flatMap_cons]

/-- The items of a list of statements are those of each statement. -/
theorem Statement.allItems_eq_flatMap (ss : List Statement) :
    Statement.allItems ss = ss.flatMap Statement.items := by
  induction ss with
  | nil => rfl
  | cons s ss ih => rw [allItems, ih, List.flatMap_cons]

namespace Program

/-- **The items of a program.** -/
def items (p : Program) : List Item :=
  Statement.allItems p.statements

/-- **The tokens that a program keeps**, in the order of its items. -/
def tokens (p : Program) : List Token :=
  p.items.filterMap Item.token?

/-- The opening parentheses of the **calls** of a program. -/
def calls (p : Program) : List Token :=
  p.items.filterMap Item.call?

/-- The parentheses of the calls are kept. -/
theorem mem_tokens_of_mem_calls {p : Program} {t : Token} (h : t ∈ p.calls) : t ∈ p.tokens := by
  obtain ⟨item, hitem, hcall⟩ := List.mem_filterMap.1 h
  exact List.mem_filterMap.2 ⟨item, hitem, Item.token?_of_call? hcall⟩

/-- The number of **missing children** of a program. -/
def absences (p : Program) : Nat :=
  p.items.count .absent

end Program

end MonkeySyntax
