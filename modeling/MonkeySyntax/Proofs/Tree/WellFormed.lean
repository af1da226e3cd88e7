import MonkeySyntax.Text.Decimal
import MonkeySyntax.Token.Lexeme
import MonkeySyntax.Tree.Printer

/-! # Well-formed trees

Trees that could have been read: no child is missing and every token is what the grammar asks for in
its place. The canonical text of such a tree nests expressions more deeply than the tree itself does,
since it puts parentheses around every operator.

* **`Expr.WellFormed`**, `Block.WellFormed`, `Statement.WellFormed`, **`Program.WellFormed`**.
* **`Expr.level`**, `Block.level`, **`Statement.level`** — how deeply the expressions of the canonical
  text are nested.
* `Expr.head_display` — how the text of an expression begins. -/

namespace MonkeySyntax

/-- The token is of this kind and has this text. -/
def Token.Is (t : Token) (kind : Kind) (text : String) : Prop :=
  t.kind = kind ∧ t.text = text

/-- The operators that stand before their operand, with their signs. -/
def prefixSigns : List (Kind × String) :=
  [(.bang, "!"), (.minus, "-")]

/-- The operators that stand between their operands, with their signs. -/
def infixSigns : List (Kind × String) :=
  [(.equals, "=="), (.notEquals, "!="), (.less, "<"), (.greater, ">"), (.plus, "+"), (.minus, "-"),
    (.star, "*"), (.slash, "/")]

/-- **A name**: a word of letters and underscores that is no keyword, and the text of its token. -/
structure Identifier.WellFormed (i : Identifier) : Prop where
  /-- The token is a word. -/
  kind_eq : i.token.kind = .identifier
  /-- The name is what the token says. -/
  text_eq : i.token.text = i.name
  /-- The name is not empty. -/
  ne_empty : i.name ≠ ""
  /-- It has only letters and underscores. -/
  isWordChar : ∀ c ∈ i.name.toList, isWordChar c = true
  /-- It is not taken. -/
  not_keyword : i.name ∉ keywords.map Prod.fst

mutual

/-- **A well-formed expression.** -/
def Expr.WellFormed : Expr → Prop
  | .identifier i => i.WellFormed
  | .integer t value => t.kind = .integer ∧ integerValue? t.text = some value
  | .boolean t value => if value then t.Is .kwTrue "true" else t.Is .kwFalse "false"
  | .prefixOp t o x => (t.kind, t.text) ∈ prefixSigns ∧ o = t.text ∧ Expr.WellFormed? x
  | .infixOp t o l x =>
    (t.kind, t.text) ∈ infixSigns ∧ o = t.text ∧ l.WellFormed ∧ Expr.WellFormed? x
  | .conditional t c a e =>
    t.Is .kwIf "if" ∧ Expr.WellFormed? c ∧ a.WellFormed ∧ Block.AlternativeWellFormed e
  | .function t ps b => t.Is .kwFn "fn" ∧ (∀ p ∈ ps, p.WellFormed) ∧ b.WellFormed
  | .call t f xs => t.Is .openParen "(" ∧ f.WellFormed ∧ Expr.AllWellFormed xs

/-- A child that is there and well formed. -/
def Expr.WellFormed? : Option Expr → Prop
  | none => False
  | some x => x.WellFormed

/-- Well-formed arguments. -/
def Expr.AllWellFormed : List Expr → Prop
  | [] => True
  | x :: xs => x.WellFormed ∧ Expr.AllWellFormed xs

/-- **A well-formed block.** -/
def Block.WellFormed : Block → Prop
  | ⟨t, ss⟩ => t.Is .openBrace "\x7b" ∧ Statement.AllWellFormed ss

/-- A second branch that is well formed or left out. -/
def Block.AlternativeWellFormed : Option Block → Prop
  | none => True
  | some b => b.WellFormed

/-- **A well-formed statement.** -/
def Statement.WellFormed : Statement → Prop
  | .binding t m x => t.Is .kwLet "let" ∧ m.WellFormed ∧ Expr.WellFormed? x
  | .returning t x => t.Is .kwReturn "return" ∧ Expr.WellFormed? x
  | .expression x => x.WellFormed

/-- Well-formed statements. -/
def Statement.AllWellFormed : List Statement → Prop
  | [] => True
  | s :: ss => s.WellFormed ∧ Statement.AllWellFormed ss

end

/-- **A well-formed program.** -/
structure Program.WellFormed (p : Program) : Prop where
  /-- Its statements are well formed. -/
  statements : Statement.AllWellFormed p.statements

/-! ### Levels -/

mutual

/-- **The levels of an expression** in its canonical text, the expression itself being one. -/
def Expr.level : Expr → Nat
  | .identifier _ | .integer _ _ | .boolean _ _ => 1
  | .prefixOp _ _ x => 2 + Expr.level? x
  | .infixOp _ _ l x => 1 + max l.level (1 + Expr.level? x)
  | .conditional _ c a e => 1 + max (Expr.level? c) (max a.level (Block.alternativeLevel e))
  | .function _ _ b => 1 + b.level
  | .call _ f xs => max f.level (1 + Expr.levelAll xs)

/-- The levels of a child that may be missing. -/
def Expr.level? : Option Expr → Nat
  | none => 0
  | some x => x.level

/-- The levels of the deepest argument. -/
def Expr.levelAll : List Expr → Nat
  | [] => 0
  | x :: xs => max x.level (Expr.levelAll xs)

/-- The levels of the deepest statement of a block. -/
def Block.level : Block → Nat
  | ⟨_, ss⟩ => Statement.levelAll ss

/-- The levels of a second branch that may be left out. -/
def Block.alternativeLevel : Option Block → Nat
  | none => 0
  | some b => b.level

/-- **The levels of a statement** are those of its expression. -/
def Statement.level : Statement → Nat
  | .binding _ _ x => Expr.level? x
  | .returning _ x => Expr.level? x
  | .expression x => x.level

/-- The levels of the deepest statement. -/
def Statement.levelAll : List Statement → Nat
  | [] => 0
  | s :: ss => max s.level (Statement.levelAll ss)

end

/-- The deepest statement stays within a limit when all of them do. -/
theorem Statement.levelAll_le_iff {ss : List Statement} {n : Nat} :
    Statement.levelAll ss ≤ n ↔ ∀ s ∈ ss, s.level ≤ n := by
  induction ss with
  | nil => simp [levelAll]
  | cons s ss ih => rw [levelAll, Nat.max_le, ih, List.forall_mem_cons]

/-! ### How texts begin -/

/-- A name begins with a letter or an underscore. -/
theorem Identifier.WellFormed.exists_cons {i : Identifier} (h : i.WellFormed) :
    ∃ c cs, i.name.toList = c :: cs ∧ MonkeySyntax.isWordChar c = true := by
  obtain ⟨c, cs, hcs⟩ := List.exists_cons_of_ne_nil (l := i.name.toList) (by simpa using h.ne_empty)
  exact ⟨c, cs, hcs, h.isWordChar c (by rw [hcs]; exact List.mem_cons_self)⟩

/-- A number begins with a digit. -/
theorem exists_cons_of_integerValue? {text : String} {value : Int}
    (h : integerValue? text = some value) :
    (∃ c cs, text.toList = c :: cs) ∧ ∀ c ∈ text.toList, isDigit c = true := by
  rw [integerValue?] at h
  split at h
  · exact absurd h (by simp)
  · next hdigits =>
    simp only [Bool.or_eq_true, not_or, Bool.not_eq_true, Bool.not_eq_false'] at hdigits
    obtain ⟨hne, hall⟩ := hdigits
    refine ⟨List.exists_cons_of_ne_nil (by simpa using hne), ?_⟩
    exact List.all_eq_true.1 hall

/-- The text of an expression **never begins with `=`**. -/
theorem Expr.head_display : (x : Expr) → x.WellFormed →
    ∃ c cs, x.display.toList = c :: cs ∧ c ≠ '='
  | .identifier i, h => by
    obtain ⟨c, cs, hcs, hword⟩ := Identifier.WellFormed.exists_cons h
    exact ⟨c, cs, hcs, by rintro rfl; exact absurd hword (by decide)⟩
  | .integer t value, h => by
    obtain ⟨⟨c, cs, hcs⟩, hdigits⟩ := exists_cons_of_integerValue? h.2
    have hdigit := hdigits c (by rw [hcs]; exact List.mem_cons_self)
    exact ⟨c, cs, hcs, by rintro rfl; exact absurd hdigit (by decide)⟩
  | .boolean t true, h => ⟨'t', ['r', 'u', 'e'], by rw [display, h.2]; rfl, by decide⟩
  | .boolean t false, h => ⟨'f', ['a', 'l', 's', 'e'], by rw [display, h.2]; rfl, by decide⟩
  | .prefixOp t o x, _ => ⟨'(', _, by simp [display]; rfl, by decide⟩
  | .infixOp t o l x, _ => ⟨'(', _, by simp [display]; rfl, by decide⟩
  | .conditional t c a e, h => ⟨'i', _, by simp [display, h.1.2]; rfl, by decide⟩
  | .function t ps b, h => ⟨'f', _, by simp [display, h.1.2]; rfl, by decide⟩
  | .call t f xs, h => by
    obtain ⟨c, cs, hcs, hne⟩ := head_display f h.2.1
    exact ⟨c, _, by simp [display, hcs]; rfl, hne⟩

end MonkeySyntax
