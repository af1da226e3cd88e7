import MonkeySyntax.Proofs.Grammar.Derivation
import MonkeySyntax.Proofs.Parsing.CleanRule
import MonkeySyntax.Proofs.Parsing.TokenView

/-! # A parser before given tokens

* **`Kind.Follows`** — the kinds of token at which an expression is complete.
* `Parser.operatorAhead?_eq_none`, `Parser.operatorAhead?_binary`, `Parser.operatorAhead?_call` — when
  an expression goes on and when it does not.
* **`Parsing.Ready expr levels p ts`** — the parser `p` stands before the tokens `ts`, and `expr` reads
  expressions where so many levels are left.
* `reads_skipSemicolons` — semicolons that are passed over. -/

namespace MonkeySyntax

open Parsing ParseM

/-- A token of such a kind behind an expression **does not belong to it** when operators have to bind
tighter than `bp`. -/
def Kind.Follows (bp : Power) (k : Kind) : Prop :=
  k ≠ .kwElse ∧ Grammar.standard.power k ≤ bp

instance (bp : Power) (k : Kind) : Decidable (k.Follows bp) := inferInstanceAs (Decidable (_ ∧ _))

/-- Whatever does not belong to an expression does not belong to a part of it. -/
theorem Kind.Follows.of_admits {bp s : Power} {k : Kind} (h : k.Follows bp) (hs : bp.Admits s) :
    k.Follows s := by
  refine ⟨h.1, ?_⟩
  rcases hs with hlt | ⟨rfl, rfl⟩
  · exact Nat.le_trans h.2 (Nat.le_of_lt hlt)
  · exact h.2

/-- A kind that starts a statement does not belong to a statement before it, unless it continues an
expression. -/
theorem Kind.follows_of_startsStatement {k : Kind} (h : k.StartsStatement) (hminus : k ≠ .minus)
    (hparen : k ≠ .openParen) : k.Follows .lowest := by
  cases k <;> first | decide | exact absurd rfl hminus | exact absurd rfl hparen |
    exact absurd h (by decide)

/-- What starts a statement closes neither a block nor the source. -/
theorem Kind.ne_of_startsStatement {k : Kind} (h : k.StartsStatement) :
    k ≠ .closeBrace ∧ k ≠ .eof := by
  constructor <;> rintro rfl <;> exact absurd h (by decide)

/-- A statement behind another one from which it is separated does not belong to it. -/
theorem Separated.begins {ts us : List Token} {u : Token} (h : Separated ts (u :: us))
    (hu : u.kind.StartsStatement) :
    u.kind ≠ .semicolon ∧
      (ts.getLast?.map Token.kind = some .semicolon ∨ u.kind.Follows .lowest) := by
  refine ⟨?_, h.imp_right fun hnot => ?_⟩
  · intro hk
    rw [hk] at hu
    exact absurd hu (by decide)
  · obtain ⟨hminus, hparen⟩ := hnot u rfl
    exact Kind.follows_of_startsStatement hu hminus hparen

namespace Parser

variable {p : Parser} {bp : Power}

/-- Where what comes next binds no tighter, no operator is ahead. -/
theorem operatorAhead?_eq_none (hp : p.Standard) (h : Grammar.standard.power p.peek.kind ≤ bp) :
    p.operatorAhead? bp = none := by
  rw [operatorAhead?, hp.operator?_eq]
  rw [Grammar.power, show Grammar.standard.operator? = Grammar.standardOperator? from rfl] at h
  cases hop : Grammar.standardOperator? p.peek.kind with
  | none => rfl
  | some op =>
    rw [hop] at h
    have hnot : ¬ bp < op.power := Nat.not_lt.2 h
    simp [hnot]

/-- A sign that binds tighter is an operator ahead. -/
theorem operatorAhead?_binary (hp : p.Standard) {s : Power}
    (h : p.peek.kind.binaryPower? = some s) (hlt : bp < s) :
    p.operatorAhead? bp = some ⟨.binary, s⟩ := by
  rw [operatorAhead?, hp.operator?_eq]
  cases hk : p.peek.kind <;> rw [hk] at h <;>
    simp_all [Kind.binaryPower?, Grammar.standardOperator?]

/-- An opening parenthesis behind an expression is the operator of a call. -/
theorem operatorAhead?_call (hp : p.Standard) (h : p.peek.kind = .openParen) (hlt : bp < .call) :
    p.operatorAhead? bp = some ⟨.call, .call⟩ := by
  rw [operatorAhead?, hp.operator?_eq, h]
  simp [Grammar.standardOperator?, hlt]

/-- Where no operator is ahead what comes next binds no tighter. -/
theorem power_le_of_operatorAhead? (hp : p.Standard) (h : p.operatorAhead? bp = none) :
    Grammar.standard.power p.peek.kind ≤ bp := by
  rw [operatorAhead?, hp.operator?_eq, Option.filter_eq_none_iff] at h
  rw [Grammar.power, show Grammar.standard.operator? = Grammar.standardOperator? from rfl]
  cases hop : Grammar.standardOperator? p.peek.kind with
  | none => exact Nat.zero_le _
  | some op =>
    have hkind : p.peek.kind ≠ .semicolon := by
      intro hkind
      rw [hkind] at hop
      cases hop
    have hnot : ¬ bp < op.power := by simpa [hkind] using h op hop
    exact Nat.not_lt.1 hnot

/-- An operator ahead is a sign between operands or the parenthesis of a call. -/
theorem operatorAhead?_cases (hp : p.Standard) {op : Operator} (h : p.operatorAhead? bp = some op) :
    (∃ s, p.peek.kind.binaryPower? = some s ∧ bp < s ∧ op = ⟨.binary, s⟩) ∨
      p.peek.kind = .openParen ∧ bp < .call ∧ op = ⟨.call, .call⟩ := by
  rw [operatorAhead?, hp.operator?_eq, Option.filter_eq_some_iff] at h
  obtain ⟨hop, hlt⟩ := h
  rw [decide_eq_true_eq] at hlt
  cases hkind : p.peek.kind <;> rw [hkind] at hop <;>
    simp only [Grammar.standardOperator?, Option.some.injEq, reduceCtorEq] at hop <;> subst hop <;>
    simp_all [Kind.binaryPower?]

end Parser

namespace Parsing

/-- **The parser stands before the tokens**, follows the rules of the language and has a number of
levels left, to which `expr` reads expressions. -/
structure Ready (expr : Power → ParseM Expr) (levels : Nat) (p : Parser) (ts : List Token) : Prop where
  /-- The inner expressions are candid. -/
  candid : ∀ power, Candid Given (expr power)
  /-- Where so many levels are left they are read to as many levels. -/
  exec_eq : ∀ power q, q.levels = levels → (expr power).exec q = (exprWithin levels power).exec q
  /-- The rules are those of the language. -/
  standard : p.Standard
  /-- So many levels are left. -/
  levels_eq : p.levels = levels
  /-- These tokens are ahead. -/
  rest_eq : p.rest = ts

variable {expr : Power → ParseM Expr} {levels : Nat} {p q : Parser} {t u : Token} {ts us : List Token}

theorem Ready.later (h : Ready expr levels p ts) (hq : Parser.Later p q) (hrest : q.rest = us) :
    Ready expr levels q us where
  candid := h.candid
  exec_eq := h.exec_eq
  standard := h.standard.later hq
  levels_eq := hq.levels_eq.trans h.levels_eq
  rest_eq := hrest

theorem Ready.current (h : Ready expr levels p (t :: ts)) : p.current = t :=
  Parser.current_of_rest h.rest_eq

theorem Ready.peek (h : Ready expr levels p (t :: u :: ts)) : p.peek = u :=
  Parser.peek_of_rest h.rest_eq

theorem Ready.advance (h : Ready expr levels p (t :: ts)) : Ready expr levels p.advance ts :=
  h.later (Parser.later_advance p) (by rw [Parser.rest_advance, h.rest_eq, List.tail_cons])

theorem Ready.skip (h : Ready expr levels p (ts ++ us)) : Ready expr levels (p.skip ts.length) us :=
  h.later (Parser.later_skip p _) (Parser.rest_skip_append h.rest_eq)

theorem Ready.skip_pred (h : Ready expr levels p (ts ++ us)) (hts : ts ≠ []) :
    Ready expr levels (p.skip (ts.length - 1)) (ts.getLast hts :: us) :=
  h.later (Parser.later_skip p _) (Parser.rest_skip_pred h.rest_eq hts)

/-- Inside one more expression there is one level less. -/
theorem Ready.nested (h : Ready expr (levels + 1) p ts) :
    p.depth < p.grammar.depthLimit ∧
      Ready (exprWithin levels) levels (p.withDepth (p.depth + 1)) ts := by
  have hlevels : p.grammar.depthLimit - p.depth = levels + 1 := h.levels_eq
  refine ⟨by omega, candid_exprWithin levels, fun _ _ _ => rfl, h.standard.withDepth _, ?_,
    h.rest_eq⟩
  show p.grammar.depthLimit - (p.depth + 1) = levels
  omega

/-- The first part is read by the rule of the current token. -/
theorem Ready.reads_climb (h : Ready expr levels p (t :: ts)) {rule : PrefixRule}
    (hrule : Grammar.standardPrefixRule? t.kind = some rule) {bp : Power} {x : Expr} :
    Reads (climb expr bp) p x q ↔
      ∃ left r, Reads (prefixBy expr rule) p left r ∧ Reads (continueExpr expr bp left) r x q := by
  have hcurrent : p.grammar.prefixRule? p.current.kind = some rule := by
    rw [h.standard.prefixRule?_eq, h.current, hrule]
  rw [Parsing.reads_climb h.candid]
  constructor
  · rintro ⟨rule', left, r, hrule', hleft, hrest⟩
    obtain rfl : rule = rule' := Option.some.inj (hcurrent.symm.trans hrule')
    exact ⟨left, r, hleft, hrest⟩
  · rintro ⟨left, r, hleft, hrest⟩
    exact ⟨rule, left, r, hcurrent, hleft, hrest⟩

/-- The loop over semicolons stops at the last of them. -/
theorem reads_semicolons {vs : List Unit} (hp : p.Standard) (hrest : p.rest = u :: (us ++ t :: ts))
    (hus : ∀ v ∈ us, v.kind = .semicolon) (ht : t.kind ≠ .semicolon) :
    Reads (collectWhile (peekIs .semicolon) advance) p vs q ↔
      vs = List.replicate us.length () ∧ q = p.skip us.length := by
  induction us generalizing p u vs with
  | nil =>
    have hpeek : p.peek = t := Parser.peek_of_rest hrest
    exact reads_collectWhile_false (by simpa [peekIs, hpeek] using ht)
  | cons v us ih =>
    obtain ⟨hv, hus⟩ := List.forall_mem_cons.1 hus
    have hpeek : p.peek = v := Parser.peek_of_rest hrest
    have hnext : p.advance.rest = v :: (us ++ t :: ts) := by
      rw [Parser.rest_advance, hrest, List.tail_cons, List.cons_append]
    rw [reads_collectWhile_true (keeps_advance Parser.stepRelation_later) consuming_semicolon hp
      (by simp [peekIs, hpeek, hv])]
    constructor
    · rintro ⟨a, s, rest, rfl, hs, hrest⟩
      obtain rfl : p.advance = s := congrArg Prod.snd hs.1
      obtain ⟨rfl, rfl⟩ := (ih hp.advance hnext hus).1 hrest
      exact ⟨rfl, rfl⟩
    · rintro ⟨rfl, rfl⟩
      exact ⟨(), p.advance, _, rfl, ⟨rfl, by simp⟩, (ih hp.advance hnext hus).2 ⟨rfl, rfl⟩⟩

/-- **Passing over semicolons** stops at the last of them. -/
theorem reads_skipSemicolons (hp : p.Standard) (hrest : p.rest = u :: (us ++ t :: ts))
    (hus : ∀ v ∈ us, v.kind = .semicolon) (ht : t.kind ≠ .semicolon) {o : Unit} :
    Reads skipSemicolons p o q ↔ q = p.skip us.length := by
  rw [skipSemicolons, reads_bind_pure
    ((keeps_advance Parser.stepRelation_later).collectWhile Parser.stepRelation_later)]
  constructor
  · rintro ⟨vs, hvs, -⟩
    exact ((reads_semicolons hp hrest hus ht).1 hvs).2
  · intro hq
    exact ⟨_, (reads_semicolons hp hrest hus ht).2 ⟨rfl, hq⟩, rfl⟩

end Parsing

end MonkeySyntax
