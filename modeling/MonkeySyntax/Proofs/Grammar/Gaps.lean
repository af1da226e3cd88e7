import MonkeySyntax.Proofs.Grammar.Derivation

/-! # Expressions with gaps

A gap is a token at which an expression is expected but none can be read. Around its gaps the text of an
expression may still be read as intended:

```text
G(bp)    = gap | first more(bp)
first    = IDENT | INT | true | false | ( G(lowest) ) | - G(unary) | ! G(unary)
         | if ( G(lowest) ) | fn ( [IDENT {, IDENT}] )
more(bp) = nothing | op G(power of op) more(bp) | ( [G(lowest) {, G(lowest)}] ) more(bp)
```

where operators have to bind tighter than `bp`, and what is not whole is not continued: a gap, a gap in
parentheses, a call with such an argument, a choice or a function without its block. A missing operand
does not keep an expression from being whole.

* `Token.IsGap`, `Token.IsAtom` — the gaps and the least expressions.
* **`Gapped levels stretch ts k whole gaps`** — the tokens `ts` are read so when one of the kind `k` is
  behind them. As many gaps are in them as said, and they are whole or not.
* `Gapped.exists_head` — how they begin. -/

namespace MonkeySyntax

/-! ### Single tokens -/

/-- A token of this kind **stands for itself**: it does not open, close, divide or end anything. -/
def Kind.Simple (k : Kind) : Prop :=
  k ∉ [Kind.eof, .comma, .semicolon, .openParen, .closeParen, .openBrace, .closeBrace]

instance (k : Kind) : Decidable k.Simple := inferInstanceAs (Decidable (_ ∉ _))

/-- **A gap**: no expression can be read from the token when one of the kind `k` is behind it, and the
parser does not get past it. -/
structure Token.IsGap (t : Token) (k : Kind) : Prop where
  /-- The token stands for itself. -/
  simple : t.kind.Simple
  /-- It starts no expression, or is a number without a value, or starts an expression that lacks its
  parenthesis. -/
  fails : ¬ t.kind.StartsExpr ∨ t.kind = .integer ∧ integerValue? t.text = none ∨
    (t.kind = .kwIf ∨ t.kind = .kwFn) ∧ k ≠ .openParen

/-- **An expression of one token.** -/
def Token.IsAtom (t : Token) : Prop :=
  t.kind ∈ [Kind.identifier, .kwTrue, .kwFalse] ∨ t.kind = .integer ∧ integerValue? t.text ≠ none

instance (t : Token) : Decidable t.IsAtom := inferInstanceAs (Decidable (_ ∨ _))

/-- **The kind that comes next**: that of the first of the tokens, or the given one if there are none. -/
def kindAhead (ts : List Token) (k : Kind) : Kind :=
  (ts.head?.map Token.kind).getD k

@[simp] theorem kindAhead_nil (k : Kind) : kindAhead [] k = k := rfl

@[simp] theorem kindAhead_cons (t : Token) (ts : List Token) (k : Kind) :
    kindAhead (t :: ts) k = t.kind := rfl

/-! ### Texts -/

/-- What a text with gaps may be. -/
inductive Stretch where
  /-- A whole expression, whose operators bind tighter than `bp`. -/
  | operand (bp : Power)
  /-- The first part of an expression. -/
  | first
  /-- What continues an expression, by operators that bind tighter than `bp`. -/
  | more (bp : Power)
  /-- The arguments of a call. -/
  | arguments
  /-- The arguments behind the first one. -/
  | furtherArguments

/-- **Texts with gaps**, where so many levels are left. -/
inductive Gapped : Nat → Stretch → List Token → Kind → Bool → Nat → Prop where
  /-- Where no level is left no expression is read. -/
  | refused {bp t k} (ht : t.kind.Simple) : Gapped 0 (.operand bp) [t] k false 1
  /-- A first part that is whole is continued. -/
  | operand {l bp ts us k w m n} (hfirst : Gapped l .first ts (kindAhead us k) true m)
      (hmore : Gapped l (.more bp) us k w n) : Gapped (l + 1) (.operand bp) (ts ++ us) k w (m + n)
  /-- Any other first part is not. -/
  | broken {l bp ts k n} (hfirst : Gapped l .first ts k false n) :
      Gapped (l + 1) (.operand bp) ts k false n
  /-- A gap. -/
  | gap {l t k} (ht : t.IsGap k) : Gapped l .first [t] k false 1
  /-- A name, a number or a truth value. -/
  | atom {l t k} (ht : t.IsAtom) : Gapped l .first [t] k true 0
  /-- An expression in parentheses is as whole as it is inside. -/
  | grouping {l o c ts k w n} (ho : o.kind = .openParen)
      (hts : Gapped l (.operand .lowest) ts .closeParen w n) (hc : c.kind = .closeParen) :
      Gapped l .first (o :: (ts ++ [c])) k w n
  /-- An operator before its operand, which may be missing. -/
  | prefixOp {l o ts k w n} (ho : o.kind = .bang ∨ o.kind = .minus)
      (hts : Gapped l (.operand .unary) ts k w n) : Gapped l .first (o :: ts) k true n
  /-- A choice without its block. -/
  | conditional {l i o c ts k w n} (hi : i.kind = .kwIf) (ho : o.kind = .openParen)
      (hts : Gapped l (.operand .lowest) ts .closeParen w n) (hc : c.kind = .closeParen)
      (hk : k ≠ .openBrace) : Gapped l .first (i :: o :: (ts ++ [c])) k false (n + 1)
  /-- A function without its block. -/
  | function {l f o c is ts k} (hf : f.kind = .kwFn) (ho : o.kind = .openParen)
      (his : Derives (.parameters is) ts 0) (hc : c.kind = .closeParen) (hk : k ≠ .openBrace) :
      Gapped l .first (f :: o :: (ts ++ [c])) k false 1
  /-- No operator that binds tighter comes next. -/
  | done {l bp k} (hk : Grammar.standard.power k ≤ bp) : Gapped l (.more bp) [] k true 0
  /-- An operator and its right operand, which may be missing. -/
  | infixOp {l bp o pow ts us k v w m n} (ho : o.kind.binaryPower? = some pow) (hlt : bp < pow)
      (hts : Gapped l (.operand pow) ts (kindAhead us k) v m) (hus : Gapped l (.more bp) us k w n) :
      Gapped l (.more bp) (o :: (ts ++ us)) k w (m + n)
  /-- A call is continued if all of its arguments are whole. -/
  | call {l bp o c ts us k w m n} (ho : o.kind = .openParen) (hlt : bp < .call)
      (hts : Gapped l .arguments ts .closeParen true m) (hc : c.kind = .closeParen)
      (hus : Gapped l (.more bp) us k w n) :
      Gapped l (.more bp) (o :: (ts ++ c :: us)) k w (m + n)
  /-- Any other call is not. -/
  | brokenCall {l bp o c ts k n} (ho : o.kind = .openParen) (hlt : bp < .call)
      (hts : Gapped l .arguments ts .closeParen false n) (hc : c.kind = .closeParen) :
      Gapped l (.more bp) (o :: (ts ++ [c])) k false n
  /-- No arguments. -/
  | noArguments {l} : Gapped l .arguments [] .closeParen true 0
  /-- A first argument and others. -/
  | arguments {l ts us v w m n} (hts : Gapped l (.operand .lowest) ts (kindAhead us .closeParen) v m)
      (hus : Gapped l .furtherArguments us .closeParen w n) :
      Gapped l .arguments (ts ++ us) .closeParen (v && w) (m + n)
  /-- No further arguments. -/
  | lastArgument {l} : Gapped l .furtherArguments [] .closeParen true 0
  /-- A comma and a further argument. -/
  | furtherArgument {l c ts us v w m n} (hc : c.kind = .comma)
      (hts : Gapped l (.operand .lowest) ts (kindAhead us .closeParen) v m)
      (hus : Gapped l .furtherArguments us .closeParen w n) :
      Gapped l .furtherArguments (c :: (ts ++ us)) .closeParen (v && w) (m + n)

section Gapped

variable {l : Nat} {stretch : Stretch} {ts : List Token} {k : Kind} {w : Bool} {n : Nat}

/-- How the tokens of a text begin, where they have a first one. -/
def Stretch.Begins : Stretch → List Token → Prop
  | operand _, ts | first, ts => ∃ t us, ts = t :: us ∧ t.kind ≠ .comma ∧ t.kind ≠ .closeParen
  | _, _ => True

/-- **An expression with gaps has a first token**, which is neither a comma nor a closing
parenthesis. -/
theorem Gapped.begins (h : Gapped l stretch ts k w n) : stretch.Begins ts := by
  have hsimple {k : Kind} (hk : k.Simple) : k ≠ .comma ∧ k ≠ .closeParen := by
    constructor <;> rintro rfl <;> exact absurd hk (by decide)
  induction h with
  | refused ht => exact ⟨_, _, rfl, hsimple ht⟩
  | operand _ _ ih =>
    obtain ⟨t, us, rfl, ht⟩ := ih
    exact ⟨t, _, rfl, ht⟩
  | broken _ ih => exact ih
  | gap ht => exact ⟨_, _, rfl, hsimple ht.simple⟩
  | @atom _ t _ ht =>
    refine ⟨t, [], rfl, ?_⟩
    constructor <;> intro hk <;> simp [Token.IsAtom, hk] at ht
  | grouping ho => exact ⟨_, _, rfl, by simp [ho]⟩
  | prefixOp ho => exact ⟨_, _, rfl, by rcases ho with ho | ho <;> simp [ho]⟩
  | conditional hi => exact ⟨_, _, rfl, by simp [hi]⟩
  | function hf => exact ⟨_, _, rfl, by simp [hf]⟩
  | _ => trivial

/-- Tokens that have a first one are not empty. -/
theorem Stretch.Begins.ne_nil {ts : List Token} {bp : Power}
    (h : (Stretch.operand bp).Begins ts) : ts ≠ [] := by
  obtain ⟨t, us, rfl, -⟩ := h
  exact List.cons_ne_nil t us

end Gapped

end MonkeySyntax
