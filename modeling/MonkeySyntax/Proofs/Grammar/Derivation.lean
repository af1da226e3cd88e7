import Mathlib.Data.Nat.Basic
import Mathlib.Tactic.Common
import MonkeySyntax.Grammar.Rule
import MonkeySyntax.Text.Decimal
import MonkeySyntax.Tree.Basic

/-! # The grammar of the language

The grammar as a relation between trees and lists of tokens, stated apart from the parser:

```text
Program = Stmt*
Stmt    = let IDENT = E(lowest) ;*  |  return E(lowest) ;*  |  E(lowest) [;]
Block   = { Stmt* }
E(bp)   = IDENT | INT | true | false | ( E(lowest) ) | - E(unary) | ! E(unary)
        | if ( E(lowest) ) Block [else Block] | fn ( [IDENT {, IDENT}] ) Block
        | E op E(power of op) | E ( [E(lowest) {, E(lowest)}] )
```

where the left operand of an operator binds at least as tightly as the operator, and a statement
that does not end in `;` is not followed by one that begins with `-` or `(`.

* **`Phrase`** — what can be derived: a tree, or a list of trees, in one of the places of the grammar.
* **`Derives phrase tokens levels`** — the tokens form the phrase, and expressions are nested in it
  to the given number of levels. A whole expression is one level, and so is every expression inside
  it that is not the left operand of an operator or the callee of a call.
* `Derives.begins`, `Derives.ends` — how expressions, statements and blocks begin and end. -/

namespace MonkeySyntax

/-- The binding power of a sign as an operator between two operands. -/
def Kind.binaryPower? : Kind → Option Power
  | .equals | .notEquals => some .equality
  | .less | .greater => some .comparison
  | .plus | .minus => some .sum
  | .star | .slash => some .product
  | _ => none

/-- **`E(bp)`**: the expressions that may stand where operators have to bind tighter than `bp`, told
by the strength of their outermost operator. An operator before its operand may also follow another
one. -/
def Power.Admits (bp strength : Power) : Prop :=
  bp < strength ∨ bp = .unary ∧ strength = .unary

/-- A statement that does not end in `;` is **not followed** by one that begins with `-` or `(`,
which would continue it. -/
def Separated (tokens following : List Token) : Prop :=
  tokens.getLast?.map Token.kind = some .semicolon ∨
    ∀ t ∈ following.head?, t.kind ≠ .minus ∧ t.kind ≠ .openParen

/-- What the grammar derives. -/
inductive Phrase where
  /-- A whole expression, whose operators bind tighter than `bp`. -/
  | expr (bp : Power) (e : Expr)
  /-- An expression with the strength of its outermost operator; calls and what is closed in itself
  have the greatest. -/
  | part (e : Expr) (strength : Power)
  /-- The arguments of a call. -/
  | arguments (xs : List Expr)
  /-- The arguments behind the first one. -/
  | furtherArguments (xs : List Expr)
  /-- The parameters of a function. -/
  | parameters (is : List Identifier)
  /-- The parameters behind the first one. -/
  | furtherParameters (is : List Identifier)
  /-- A block. -/
  | block (b : Block)
  /-- The second branch of a choice, which may be left out. -/
  | alternative (b : Option Block)
  /-- A statement. -/
  | statement (s : Statement)
  /-- The statements of a program or of a block. -/
  | statements (ss : List Statement)

/-- **The grammar**: the tokens form the phrase, and expressions are nested to so many levels. -/
inductive Derives : Phrase → List Token → Nat → Prop where
  /-- A whole expression is a level of its own. -/
  | expr {bp e s ts n} (he : Derives (.part e s) ts n) (hs : bp.Admits s) :
      Derives (.expr bp e) ts (n + 1)
  /-- A name. -/
  | identifier {t} (ht : t.kind = .identifier) :
      Derives (.part (.identifier (.ofToken t)) .call) [t] 0
  /-- A number within the range of literals. -/
  | integer {t value} (ht : t.kind = .integer) (hvalue : integerValue? t.text = some value) :
      Derives (.part (.integer t value) .call) [t] 0
  /-- A truth value. -/
  | boolean {t} (ht : t.kind = .kwTrue ∨ t.kind = .kwFalse) :
      Derives (.part (.boolean t (t.kind == .kwTrue)) .call) [t] 0
  /-- An expression in parentheses. -/
  | grouping {o c e ts n} (ho : o.kind = .openParen) (he : Derives (.expr .lowest e) ts n)
      (hc : c.kind = .closeParen) :
      Derives (.part e .call) (o :: (ts ++ [c])) n
  /-- A choice. -/
  | conditional {i o c e a b ts as bs k m n} (hi : i.kind = .kwIf) (ho : o.kind = .openParen)
      (he : Derives (.expr .lowest e) ts k) (hc : c.kind = .closeParen)
      (ha : Derives (.block a) as m) (hb : Derives (.alternative b) bs n) :
      Derives (.part (.conditional i (some e) a b) .call) (i :: o :: (ts ++ c :: (as ++ bs)))
        (max k (max m n))
  /-- A function. -/
  | function {f o c is b ts bs n} (hf : f.kind = .kwFn) (ho : o.kind = .openParen)
      (his : Derives (.parameters is) ts 0) (hc : c.kind = .closeParen)
      (hb : Derives (.block b) bs n) :
      Derives (.part (.function f is b) .call) (f :: o :: (ts ++ c :: bs)) n
  /-- An operator before its operand. -/
  | prefixOp {o e ts n} (ho : o.kind = .bang ∨ o.kind = .minus)
      (he : Derives (.expr .unary e) ts n) :
      Derives (.part (.prefixOp o o.text (some e)) .unary) (o :: ts) n
  /-- An operator between its operands: the left one may bind as tightly as the operator, the right
  one has to bind tighter. -/
  | infixOp {o bp l r s ls rs m n} (hl : Derives (.part l s) ls m) (ho : o.kind.binaryPower? = some bp)
      (hs : bp ≤ s) (hr : Derives (.expr bp r) rs n) :
      Derives (.part (.infixOp o o.text l (some r)) bp) (ls ++ o :: rs) (max m n)
  /-- A call. -/
  | call {o c f xs fs ts m n} (hf : Derives (.part f .call) fs m) (ho : o.kind = .openParen)
      (hxs : Derives (.arguments xs) ts n) (hc : c.kind = .closeParen) :
      Derives (.part (.call o f xs) .call) (fs ++ o :: (ts ++ [c])) (max m n)
  /-- No arguments. -/
  | noArguments : Derives (.arguments []) [] 0
  /-- A first argument and others. -/
  | arguments {x xs ts us m n} (hx : Derives (.expr .lowest x) ts m)
      (hxs : Derives (.furtherArguments xs) us n) :
      Derives (.arguments (x :: xs)) (ts ++ us) (max m n)
  /-- No further arguments. -/
  | lastArgument : Derives (.furtherArguments []) [] 0
  /-- A comma and a further argument. -/
  | furtherArgument {c x xs ts us m n} (hc : c.kind = .comma) (hx : Derives (.expr .lowest x) ts m)
      (hxs : Derives (.furtherArguments xs) us n) :
      Derives (.furtherArguments (x :: xs)) (c :: (ts ++ us)) (max m n)
  /-- No parameters. -/
  | noParameters : Derives (.parameters []) [] 0
  /-- A first parameter and others. -/
  | parameters {t is ts} (ht : t.kind = .identifier) (his : Derives (.furtherParameters is) ts 0) :
      Derives (.parameters (.ofToken t :: is)) (t :: ts) 0
  /-- No further parameters. -/
  | lastParameter : Derives (.furtherParameters []) [] 0
  /-- A comma and a further parameter. -/
  | furtherParameter {c t is ts} (hc : c.kind = .comma) (ht : t.kind = .identifier)
      (his : Derives (.furtherParameters is) ts 0) :
      Derives (.furtherParameters (.ofToken t :: is)) (c :: t :: ts) 0
  /-- Statements in braces. -/
  | block {o c ss ts n} (ho : o.kind = .openBrace) (hss : Derives (.statements ss) ts n)
      (hc : c.kind = .closeBrace) :
      Derives (.block ⟨o, ss⟩) (o :: (ts ++ [c])) n
  /-- No second branch. -/
  | noAlternative : Derives (.alternative none) [] 0
  /-- A second branch. -/
  | alternative {e b ts n} (he : e.kind = .kwElse) (hb : Derives (.block b) ts n) :
      Derives (.alternative (some b)) (e :: ts) n
  /-- A name bound to a value. -/
  | binding {l i a e ts us n} (hl : l.kind = .kwLet) (hi : i.kind = .identifier)
      (ha : a.kind = .assign) (he : Derives (.expr .lowest e) ts n)
      (hus : ∀ u ∈ us, u.kind = .semicolon) :
      Derives (.statement (.binding l (.ofToken i) (some e))) (l :: i :: a :: (ts ++ us)) n
  /-- A value returned. -/
  | returning {r e ts us n} (hr : r.kind = .kwReturn) (he : Derives (.expr .lowest e) ts n)
      (hus : ∀ u ∈ us, u.kind = .semicolon) :
      Derives (.statement (.returning r (some e))) (r :: (ts ++ us)) n
  /-- An expression by itself. -/
  | expression {e ts us n} (he : Derives (.expr .lowest e) ts n) (hlength : us.length ≤ 1)
      (hus : ∀ u ∈ us, u.kind = .semicolon) :
      Derives (.statement (.expression e)) (ts ++ us) n
  /-- No statements. -/
  | noStatements : Derives (.statements []) [] 0
  /-- A first statement and others that do not continue it. -/
  | statements {s ss ts us m n} (hs : Derives (.statement s) ts m)
      (hss : Derives (.statements ss) us n) (hseparated : Separated ts us) :
      Derives (.statements (s :: ss)) (ts ++ us) (max m n)

/-! ### How phrases begin -/

/-- A kind that starts an expression. -/
def Kind.StartsExpr (k : Kind) : Prop :=
  k ∈ [Kind.identifier, .integer, .kwTrue, .kwFalse, .openParen, .kwIf, .kwFn, .bang, .minus]

/-- A kind that starts a statement. -/
def Kind.StartsStatement (k : Kind) : Prop :=
  k = .kwLet ∨ k = .kwReturn ∨ k.StartsExpr

instance (k : Kind) : Decidable k.StartsExpr := inferInstanceAs (Decidable (_ ∈ _))

instance (k : Kind) : Decidable k.StartsStatement := inferInstanceAs (Decidable (_ ∨ _))

/-- How the tokens of a phrase begin, for the phrases that have a first token. -/
def Phrase.Begins : Phrase → List Token → Prop
  | .expr .., ts | .part .., ts => ∃ t us, ts = t :: us ∧ t.kind.StartsExpr
  | .statement _, ts => ∃ t us, ts = t :: us ∧ t.kind.StartsStatement
  | .block _, ts => ∃ t us, ts = t :: us ∧ t.kind = .openBrace
  | .furtherArguments _, ts | .furtherParameters _, ts => ∀ t ∈ ts.head?, t.kind = .comma
  | .statements _, ts => ∀ t ∈ ts.head?, t.kind.StartsStatement
  | _, _ => True

/-- Expressions, statements and blocks **have a first token**, which is of one of the kinds that
start them; what follows in a list begins with a comma, and statements with a statement. -/
theorem Derives.begins {phrase : Phrase} {ts : List Token} {n : Nat} (h : Derives phrase ts n) :
    phrase.Begins ts := by
  induction h with
  | expr _ _ ih => exact ih
  | identifier ht => exact ⟨_, _, rfl, by rw [ht]; decide⟩
  | integer ht => exact ⟨_, _, rfl, by rw [ht]; decide⟩
  | boolean ht => exact ⟨_, _, rfl, by rcases ht with ht | ht <;> rw [ht] <;> decide⟩
  | grouping ho => exact ⟨_, _, rfl, by rw [ho]; decide⟩
  | conditional hi => exact ⟨_, _, rfl, by rw [hi]; decide⟩
  | function hf => exact ⟨_, _, rfl, by rw [hf]; decide⟩
  | prefixOp ho => exact ⟨_, _, rfl, by rcases ho with ho | ho <;> rw [ho] <;> decide⟩
  | infixOp _ _ _ _ ih =>
    obtain ⟨t, us, rfl, ht⟩ := ih
    exact ⟨t, _, rfl, ht⟩
  | call _ _ _ _ ih =>
    obtain ⟨t, us, rfl, ht⟩ := ih
    exact ⟨t, _, rfl, ht⟩
  | block ho => exact ⟨_, _, rfl, ho⟩
  | binding hl => exact ⟨_, _, rfl, .inl hl⟩
  | returning hr => exact ⟨_, _, rfl, .inr (.inl hr)⟩
  | expression _ _ _ ih =>
    obtain ⟨t, us, rfl, ht⟩ := ih
    exact ⟨t, _, rfl, .inr (.inr ht)⟩
  | furtherArgument hc => simpa [Phrase.Begins] using hc
  | furtherParameter hc => simpa [Phrase.Begins] using hc
  | statements _ _ _ ih =>
    obtain ⟨t, us, rfl, ht⟩ := ih
    simpa [Phrase.Begins] using ht
  | lastArgument | lastParameter | noStatements => simp [Phrase.Begins]
  | _ => trivial

/-! ### How phrases end -/

/-- A kind that ends an expression. -/
def Kind.EndsExpr (k : Kind) : Prop :=
  k ∈ [Kind.identifier, .integer, .kwTrue, .kwFalse, .closeParen, .closeBrace]

instance (k : Kind) : Decidable k.EndsExpr := inferInstanceAs (Decidable (_ ∈ _))

/-- How the tokens of a phrase end, for the phrases about which that is asked. -/
def Phrase.Ends : Phrase → List Token → Prop
  | .expr .., ts | .part .., ts | .block _, ts => ∃ us t, ts = us ++ [t] ∧ t.kind.EndsExpr
  | .alternative _, ts => ts = [] ∨ ∃ us t, ts = us ++ [t] ∧ t.kind.EndsExpr
  | _, _ => True

/-- Expressions and blocks **have a last token**, which is of one of the kinds that end them; in
particular it is no semicolon. -/
theorem Derives.ends {phrase : Phrase} {ts : List Token} {n : Nat} (h : Derives phrase ts n) :
    phrase.Ends ts := by
  induction h with
  | expr _ _ ih => exact ih
  | @identifier t ht => exact ⟨[], t, rfl, by rw [ht]; decide⟩
  | @integer t _ ht => exact ⟨[], t, rfl, by rw [ht]; decide⟩
  | @boolean t ht => exact ⟨[], t, rfl, by rcases ht with ht | ht <;> rw [ht] <;> decide⟩
  | @grouping o c _ ts _ _ _ hc => exact ⟨o :: ts, c, rfl, by rw [hc]; decide⟩
  | @conditional i o c e a b ts as bs _ _ _ _ _ _ _ _ _ _ ihBlock ihAlternative =>
    rcases ihAlternative with rfl | ⟨us, t, rfl, ht⟩
    · obtain ⟨us, t, rfl, ht⟩ := ihBlock
      exact ⟨i :: o :: (ts ++ c :: us), t, by simp, ht⟩
    · exact ⟨i :: o :: (ts ++ c :: (as ++ us)), t, by simp, ht⟩
  | @function f o c is b ts bs _ _ _ _ _ _ _ ih =>
    obtain ⟨us, t, rfl, ht⟩ := ih
    exact ⟨f :: o :: (ts ++ c :: us), t, by simp, ht⟩
  | @prefixOp o _ _ _ _ _ ih =>
    obtain ⟨us, t, rfl, ht⟩ := ih
    exact ⟨o :: us, t, rfl, ht⟩
  | @infixOp o _ _ _ _ ls _ _ _ _ _ _ _ _ ih =>
    obtain ⟨us, t, rfl, ht⟩ := ih
    exact ⟨ls ++ o :: us, t, by simp, ht⟩
  | @call o c _ _ fs ts _ _ _ _ _ hc =>
    exact ⟨fs ++ o :: ts, c, by simp, by rw [hc]; decide⟩
  | @block o c _ ts _ _ _ hc => exact ⟨o :: ts, c, rfl, by rw [hc]; decide⟩
  | noAlternative => exact .inl rfl
  | @alternative e _ _ _ _ _ ih =>
    obtain ⟨us, t, rfl, ht⟩ := ih
    exact .inr ⟨e :: us, t, rfl, ht⟩
  | _ => trivial

end MonkeySyntax
