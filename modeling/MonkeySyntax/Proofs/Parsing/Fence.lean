import MonkeySyntax.Proofs.Grammar.Derivation
import MonkeySyntax.Proofs.Parsing.Candid

/-! # A semicolon fences off what stands before it

Whatever goes wrong before a semicolon, no rule of the language reads beyond it, if no block is
opened before it and what stands behind it begins a new statement. Every rule moves on only where it
has seen a token that the semicolon is not.

* **`Parser.Fenced m p`** — the parser stands at the semicolon at place `m` or before it.
* **`ParseM.Fences m P act Q`** — from a fenced parser of which `P` holds the action leads to a fenced
  one, and where it gives a value `Q` holds of that.
* `fences_advance`, `fences_expect`, `fences_collectWhile` — the steps that move on.
* **`fences_exprWithin`**, **`fences_statement`** — no expression and no statement reads beyond the
  semicolon. -/

namespace MonkeySyntax

open Parsing

/-- A token of such a kind may stand behind the semicolon: it begins a new statement or there is
nothing more. -/
def Kind.Opens (k : Kind) : Prop :=
  k = .eof ∨ k.StartsStatement ∧ k ≠ .minus ∧ k ≠ .openParen

instance (k : Kind) : Decidable k.Opens := inferInstanceAs (Decidable (_ ∨ _))

/-- What continues an expression does not begin a new statement. -/
theorem Kind.not_opens_of_operator {k : Kind} {op : Operator}
    (h : Grammar.standardOperator? k = some op) : ¬ k.Opens := by
  cases k <;> first | decide | exact absurd h (by simp [Grammar.standardOperator?])

namespace Parser

/-- **The parser is fenced** by a semicolon. -/
structure Fenced (m : Nat) (p : Parser) : Prop where
  /-- The rules are those of the language. -/
  standard : p.Standard
  /-- The parser has not passed the semicolon. -/
  index_le : p.index ≤ m
  /-- It does stand there. -/
  semicolon : (p.tokenAt m).kind = .semicolon
  /-- No block is opened up to there. -/
  noBrace : ∀ i ≤ m, (p.tokenAt i).kind ≠ .openBrace
  /-- The source does not end before it either. -/
  noEof : ∀ i ≤ m, (p.tokenAt i).kind ≠ .eof
  /-- Something new begins behind it. -/
  opens : (p.tokenAt (m + 1)).kind.Opens

variable {m : Nat} {p q : Parser}

theorem Fenced.later (h : p.Fenced m) (hq : Later p q) (hindex : q.index ≤ m) : q.Fenced m where
  standard := h.standard.later hq
  index_le := hindex
  semicolon := by rw [hq.tokenAt_eq]; exact h.semicolon
  noBrace i hi := by rw [hq.tokenAt_eq]; exact h.noBrace i hi
  noEof i hi := by rw [hq.tokenAt_eq]; exact h.noEof i hi
  opens := by rw [hq.tokenAt_eq]; exact h.opens

/-- At any other token the semicolon is still ahead. -/
theorem Fenced.index_lt (h : p.Fenced m) (hcurrent : p.current.kind ≠ .semicolon) : p.index < m := by
  refine Nat.lt_of_le_of_ne h.index_le fun heq => hcurrent ?_
  rw [current, heq]
  exact h.semicolon

/-- So it is where something comes next that may not stand behind it. -/
theorem Fenced.index_lt_of_peek (h : p.Fenced m) (hpeek : ¬ p.peek.kind.Opens) : p.index < m := by
  refine Nat.lt_of_le_of_ne h.index_le fun heq => hpeek ?_
  rw [peek, heq]
  exact h.opens

theorem Fenced.advance (h : p.Fenced m) (hindex : p.index < m) : p.advance.Fenced m :=
  h.later (later_advance p) (by rw [advance_index]; exact hindex)

/-- No block comes next before the semicolon. -/
theorem Fenced.peek_ne (h : p.Fenced m) (hindex : p.index < m) : p.peek.kind ≠ .openBrace :=
  h.noBrace (p.index + 1) hindex

/-- A report does not move the parser. -/
theorem Fenced.report (h : p.Fenced m) (cause : Cause) {i : Nat} (hi : p.index ≤ i)
    (hi' : i ≤ p.index + 1) : (p.report cause (p.tokenAt i)).Fenced m :=
  h.later (later_report hi hi' cause) h.index_le

theorem Fenced.withDepth (h : p.Fenced m) (n : Nat) : (p.withDepth n).Fenced m where
  standard := h.standard.withDepth n
  index_le := h.index_le
  semicolon := h.semicolon
  noBrace := h.noBrace
  noEof := h.noEof
  opens := h.opens

/-- The current token is not the semicolon. -/
def Inside (p : Parser) : Prop :=
  p.current.kind ≠ .semicolon

/-- The current token is of this kind. -/
def StandsAt (kind : Kind) (p : Parser) : Prop :=
  p.current.kind = kind

theorem StandsAt.inside {kind : Kind} (h : p.StandsAt kind) (hkind : kind ≠ .semicolon) : p.Inside := by
  rwa [Inside, h]

/-- What comes next is the current token when one token has been read. -/
theorem standsAt_advance {kind : Kind} (h : p.peek.kind = kind) : p.advance.StandsAt kind := by
  rwa [StandsAt, current_advance]

/-- Nothing is asked of the parser. -/
def Anywhere (_ : Parser) : Prop :=
  True

end Parser

namespace ParseM

open MonkeySyntax.Parser

variable {α β : Type} {m : Nat} {P Q R : Parser → Prop}

/-- **The action stays behind the fence**: from a fenced parser of which `P` holds it leads to a fenced
one, and where it gives a value `Q` holds of that one. -/
def Fences (m : Nat) (P : Parser → Prop) (act : ParseM α) (Q : Parser → Prop) : Prop :=
  ∀ p, p.Fenced m → P p → (act.exec p).2.Fenced m ∧ ((act.exec p).1.isSome = true → Q (act.exec p).2)

theorem Fences.bind {act : ParseM α} {f : α → ParseM β} (hact : Fences m P act Q)
    (hf : ∀ a, Fences m Q (f a) R) : Fences m P (act >>= f) R := by
  intro p hp hP
  obtain ⟨hq, hQ⟩ := hact p hp hP
  rcases hrun : act.exec p with ⟨_ | a, q⟩
  · rw [exec_bind_none hrun]
    rw [hrun] at hq
    exact ⟨hq, fun h => absurd h (by simp)⟩
  · rw [exec_bind_some hrun]
    rw [hrun] at hq hQ
    exact hf a q hq (hQ rfl)

/-- An action that looks at the parser first may use what it sees there. -/
theorem Fences.get_bind {f : Parser → ParseM β}
    (hf : ∀ p, p.Fenced m → P p → ((f p).exec p).2.Fenced m ∧
      (((f p).exec p).1.isSome = true → Q ((f p).exec p).2)) : Fences m P (get >>= f) Q := by
  intro p hp hP
  rw [exec_bind_some (exec_get p)]
  exact hf p hp hP

theorem Fences.imp {act : ParseM α} (h : Fences m P act Q) (hQ : ∀ p, Q p → R p) : Fences m P act R :=
  fun p hp hP => ⟨(h p hp hP).1, fun hsome => hQ _ ((h p hp hP).2 hsome)⟩

/-- At any token but the semicolon an action may be run that asks for no more. -/
theorem Fences.at {act : ParseM α} (h : Fences m Inside act Q) {kind : Kind}
    (hkind : kind ≠ .semicolon) : Fences m (StandsAt kind) act Q :=
  fun p hp hP => h p hp (hP.inside hkind)

/-- An action that asks for nothing may be run everywhere. -/
theorem Fences.of_anywhere {act : ParseM α} (h : Fences m Anywhere act Q) : Fences m P act Q :=
  fun p hp _ => h p hp trivial

/-- Where nothing can be asked for anything is shown. -/
theorem Fences.of_false {act : ParseM α} : Fences m (fun _ => False) act Q :=
  fun _ _ h => h.elim

theorem fences_pure (a : α) : Fences m P (pure a) P :=
  fun _ hp hP => ⟨hp, fun _ => hP⟩

theorem fences_getM (o : Option α) : Fences m P (o.getM : ParseM α) P := by
  intro p hp hP
  cases o with
  | none => exact ⟨hp, fun _ => hP⟩
  | some a => exact ⟨hp, fun _ => hP⟩

theorem fences_currentToken : Fences m P currentToken P :=
  fun _ hp hP => ⟨hp, fun _ => hP⟩

/-- A failure that is taken for an answer leaves nothing to rely on. -/
theorem Fences.attempt {act : ParseM α} (h : Fences m P act Q) : Fences m P (attempt act) Anywhere :=
  fun p hp hP => ⟨(h p hp hP).1, fun _ => trivial⟩

theorem Fences.map {act : ParseM α} (h : Fences m P act Q) (f : α → β) : Fences m P (f <$> act) Q := by
  rw [← bind_pure_comp]
  exact h.bind fun _ => fences_pure _

/-- Before the semicolon one token may be read. -/
theorem fences_advance : Fences m Inside advance Anywhere :=
  fun _ hp hP => ⟨hp.advance (hp.index_lt hP), fun _ => trivial⟩

/-- A required token is read only if the semicolon is still ahead. -/
theorem fences_expect_of {kind : Kind}
    (h : ∀ p : Parser, p.Fenced m → P p → p.peek.kind = kind → p.index < m) :
    Fences m P (expect kind) (StandsAt kind) := by
  intro p hp hP
  rw [exec_expect]
  split
  · next hk => exact ⟨hp.advance (h p hp hP hk), fun _ => standsAt_advance hk⟩
  · exact ⟨hp.report _ (Nat.le_succ _) le_rfl, fun h => absurd h (by simp)⟩

/-- Before the semicolon a token may be required. -/
theorem fences_expect (kind : Kind) :
    Fences m Inside (expect kind) (StandsAt kind) :=
  fences_expect_of fun _ hp hP _ => hp.index_lt hP

/-- A token that may not stand behind the semicolon may be required anywhere. -/
theorem fences_expect_closed (kind : Kind) (hkind : ¬ kind.Opens) :
    Fences m Anywhere (expect kind) (StandsAt kind) :=
  fences_expect_of fun _ hp _ hk => hp.index_lt_of_peek (hk ▸ hkind)

/-- No block is opened before the semicolon. -/
theorem fences_expect_openBrace : Fences m Inside (expect .openBrace) fun _ => False := by
  intro p hp hP
  rw [exec_expect, if_neg (hp.peek_ne (hp.index_lt hP))]
  exact ⟨hp.report _ (Nat.le_succ _) le_rfl, fun h => absurd h (by simp)⟩

/-- A token that may not stand behind the semicolon is passed over anywhere. -/
theorem fences_advanceIf {kind : Kind} (hkind : ¬ kind.Opens) :
    Fences m Anywhere (advanceIf (peekIs kind)) Anywhere := by
  intro p hp _
  rw [exec_advanceIf]
  refine ⟨?_, fun _ => trivial⟩
  split
  · next h =>
    have hpeek : p.peek.kind = kind := by simpa [peekIs] using h
    exact hp.advance (hp.index_lt_of_peek (hpeek ▸ hkind))
  · exact hp

/-- A loop stays behind the fence when each round does that is begun. -/
theorem fences_collectWhile {condition : Parser → Bool} {item : ParseM α}
    (hitem : Fences m (condition · = true) item Anywhere) :
    Fences m Anywhere (collectWhile condition item) Anywhere := by
  -- the bound on the rounds plays no part, since the fence holds behind any number of them
  have hwithin (n : Nat) : Fences m Anywhere (collectWithin condition item n) Anywhere := by
    induction n with
    | zero => exact fences_pure _
    | succ n ih =>
      refine Fences.get_bind fun p hp _ => ?_
      split
      · next h =>
        exact (hitem.bind fun a => ih.bind fun rest => fences_pure _) p hp h
      · exact ⟨hp, fun _ => trivial⟩
  exact Fences.get_bind fun p hp _ => hwithin p.remaining p hp trivial

/-- A loop that begins each round with a token that may not stand behind the semicolon. -/
theorem fences_collectWhile_peekIs {kind : Kind} {item : ParseM α} (hkind : ¬ kind.Opens)
    (hitem : Fences m (StandsAt kind) item Anywhere) :
    Fences m Anywhere (collectWhile (peekIs kind) (do advance; item)) Anywhere := by
  refine fences_collectWhile fun p hp hc => ?_
  have hpeek : p.peek.kind = kind := by simpa [peekIs] using hc
  rw [exec_bind_some (exec_advance p)]
  exact hitem p.advance (hp.advance (hp.index_lt_of_peek (hpeek ▸ hkind)))
    (standsAt_advance hpeek)

theorem fences_skipSemicolons : Fences m Anywhere skipSemicolons Anywhere :=
  have hnothing : Fences m (StandsAt .semicolon) (pure ()) Anywhere :=
    (fences_pure ()).imp fun _ _ => trivial
  (fences_collectWhile_peekIs (by decide) hnothing).bind fun _ => fences_pure ()

end ParseM

namespace Parsing

open ParseM MonkeySyntax.Parser

variable {expr : Power → ParseM Expr} {m : Nat}

section Rules

variable (hexpr : ∀ power, Fences m Anywhere (expr power) Anywhere)
include hexpr

/-! ### Statements -/

theorem fences_binding : Fences m Inside (binding expr) Anywhere :=
  fences_currentToken.bind fun _ => (fences_expect .identifier).bind fun _ =>
    ((fences_expect .assign).at (by decide)).bind fun _ => (fences_advance.at (by decide)).bind fun _ =>
    (hexpr _).attempt.bind fun _ => fences_skipSemicolons.bind fun _ => fences_pure _

theorem fences_returning : Fences m Inside (returning expr) Anywhere :=
  fences_currentToken.bind fun _ => fences_advance.bind fun _ => (hexpr _).attempt.bind fun _ =>
    fences_skipSemicolons.bind fun _ => fences_pure _

theorem fences_expressionStatement : Fences m Anywhere (expressionStatement expr) Anywhere :=
  (hexpr _).attempt.bind fun _ => (fences_advanceIf (by decide)).bind fun _ => (fences_getM _).map _

/-- **Statements stay behind the fence** when expressions do. -/
theorem fences_statement : Fences m Anywhere (statement expr) Anywhere := by
  refine Fences.get_bind fun p hp _ => ?_
  rw [hp.standard.statementRule?_eq]
  -- the semicolon itself is taken for an expression, which fails there
  cases hk : p.current.kind with
  | kwLet => exact fences_binding hexpr p hp (by rw [Inside, hk]; decide)
  | kwReturn => exact fences_returning hexpr p hp (by rw [Inside, hk]; decide)
  | _ => exact fences_expressionStatement hexpr p hp trivial

/-! ### First parts -/

omit hexpr in
theorem fences_integer : Fences m Inside integer Anywhere := by
  intro p hp _
  rw [integer, exec_bind_some (exec_currentToken p)]
  cases integerValue? p.current.text with
  | some value => exact ⟨hp, fun _ => trivial⟩
  | none => exact ⟨hp.report _ le_rfl (Nat.le_succ _), fun h => absurd h (by simp)⟩

theorem fences_unary : Fences m Inside (unary expr) Anywhere :=
  fences_currentToken.bind fun _ => fences_advance.bind fun _ => (hexpr _).attempt.bind fun _ =>
    fences_pure _

theorem fences_grouping : Fences m Inside (grouping expr) Anywhere :=
  fences_advance.bind fun _ => (hexpr _).attempt.bind fun _ =>
    (fences_expect_closed .closeParen (by decide)).bind fun _ => (fences_getM _).imp fun _ _ => trivial

/-- A choice ends before its first block, which is not there. -/
theorem fences_conditional : Fences m Inside (conditional expr) Anywhere :=
  fences_currentToken.bind fun _ => (fences_expect .openParen).bind fun _ =>
    (fences_advance.at (by decide)).bind fun _ => (hexpr _).attempt.bind fun _ =>
    (fences_expect_closed .closeParen (by decide)).bind fun _ =>
    (fences_expect_openBrace.at (by decide)).bind fun _ => Fences.of_false

omit hexpr in
theorem fences_parameter : Fences m Inside parameter Inside :=
  ((fences_expect .identifier).imp fun _ h => h.inside (by decide)).map _

omit hexpr in
theorem fences_parameters : Fences m Inside parameters Inside := by
  have hloop : Fences m Anywhere (collectWhile (peekIs .comma) (do advance; parameter)) Anywhere :=
    fences_collectWhile_peekIs (by decide)
      ((fences_parameter.at (by decide)).imp fun _ _ => trivial)
  refine Fences.get_bind fun p hp hP => ?_
  split
  · next h =>
    have hpeek : p.peek.kind = .closeParen := by simpa [peekIs] using h
    exact ⟨hp.advance (hp.index_lt hP), fun _ => (standsAt_advance hpeek).inside (by decide)⟩
  · refine (fences_parameter.bind fun _ => hloop.of_anywhere.bind fun _ =>
      (fences_expect_closed .closeParen (by decide)).bind fun _ =>
      (fences_pure _).imp fun _ h => ?_) p hp hP
    exact h.inside (by decide)

omit hexpr in
/-- A function ends before its body, which is not there. -/
theorem fences_function : Fences m Inside (function expr) Anywhere :=
  fences_currentToken.bind fun _ => (fences_expect .openParen).bind fun _ =>
    (fences_parameters.at (by decide)).bind fun _ => fences_expect_openBrace.bind fun _ =>
    Fences.of_false

theorem fences_prefixBy (rule : PrefixRule) : Fences m Inside (prefixBy expr rule) Anywhere := by
  cases rule with
  | identifier => exact fences_currentToken.bind fun _ => (fences_pure _).imp fun _ _ => trivial
  | integer => exact fences_integer
  | boolean => exact fences_currentToken.bind fun _ => (fences_pure _).imp fun _ _ => trivial
  | unary => exact fences_unary hexpr
  | grouping => exact fences_grouping hexpr
  | conditional => exact fences_conditional hexpr
  | function => exact fences_function

/-! ### Continuations -/

theorem fences_binary (left : Expr) (power : Power) :
    Fences m Inside (binary expr left power) Anywhere :=
  fences_currentToken.bind fun _ => fences_advance.bind fun _ => (hexpr _).attempt.bind fun _ =>
    fences_pure _

theorem fences_argument : Fences m Inside (argument expr) Anywhere :=
  fences_advance.bind fun _ => (hexpr _).attempt

theorem fences_arguments : Fences m Inside (arguments expr) Anywhere := by
  refine Fences.get_bind fun p hp hP => ?_
  split
  · exact (fences_advance.bind fun _ => fences_pure _) p hp hP
  · exact ((fences_argument hexpr).bind fun _ =>
      (fences_collectWhile_peekIs (by decide) ((fences_argument hexpr).at (by decide))).bind fun _ =>
      (fences_expect_closed .closeParen (by decide)).bind fun _ =>
      (fences_getM _).imp fun _ _ => trivial) p hp hP

theorem fences_call (callee : Expr) : Fences m Inside (call expr callee) Anywhere :=
  fences_currentToken.bind fun _ => (fences_arguments hexpr).bind fun _ => fences_pure _

theorem fences_infixBy (rule : InfixRule) (left : Expr) (power : Power) :
    Fences m Inside (infixBy expr rule left power) Anywhere := by
  cases rule with
  | binary => exact fences_binary hexpr left power
  | call => exact fences_call hexpr left

/-- An operator ahead lies before the semicolon, since none may stand behind it. -/
theorem fences_continueWithin (power : Power) (n : Nat) (left : Expr) :
    Fences m Anywhere (continueWithin expr power n left) Anywhere := by
  induction n generalizing left with
  | zero => exact fences_pure left
  | succ n ih =>
    refine Fences.get_bind fun p hp _ => ?_
    split
    · exact ⟨hp, fun _ => trivial⟩
    · next op hop =>
      rw [operatorAhead?, hp.standard.operator?_eq, Option.filter_eq_some_iff] at hop
      have hopens := Kind.not_opens_of_operator hop.1
      have hinside : p.advance.Inside := by
        rw [Inside, current_advance]
        intro hk
        rw [hk] at hop
        exact absurd hop.1 (by simp [Grammar.standardOperator?])
      rw [exec_bind_some (exec_advance p)]
      exact ((fences_infixBy hexpr op.rule left op.power).bind fun x => ih x) p.advance
        (hp.advance (hp.index_lt_of_peek hopens)) hinside

/-! ### Whole expressions -/

theorem fences_climb (power : Power) : Fences m Anywhere (climb expr power) Anywhere := by
  refine Fences.get_bind fun p hp _ => ?_
  split
  · exact ⟨hp.report _ le_rfl (Nat.le_succ _), fun h => absurd h (by simp)⟩
  · next rule hrule =>
    -- a semicolon starts no expression, so a rule is run before it only
    have hinside : p.Inside := by
      rw [hp.standard.prefixRule?_eq] at hrule
      intro hk
      rw [hk] at hrule
      exact absurd hrule (by simp [Grammar.standardPrefixRule?])
    refine ((fences_prefixBy hexpr rule).bind fun left => ?_) p hp hinside
    exact Fences.get_bind fun q hq _ => fences_continueWithin hexpr power q.remaining left q hq trivial

omit hexpr in
theorem fences_nested {α : Type} {act : ParseM α} (h : Fences m Anywhere act Anywhere) :
    Fences m Anywhere (nested act) Anywhere := by
  intro p hp _
  rw [exec_nested]
  split
  · exact ⟨(h (p.withDepth (p.depth + 1)) (hp.withDepth _) trivial).1.withDepth _, fun _ => trivial⟩
  · exact ⟨hp.report _ le_rfl (Nat.le_succ _), fun h => absurd h (by simp)⟩

end Rules

/-- **Expressions stay behind the fence**, by induction on the levels that are left. -/
theorem fences_exprWithin (levels : Nat) (power : Power) :
    Fences m Anywhere (exprWithin levels power) Anywhere := by
  induction levels generalizing power with
  | zero =>
    intro p hp _
    rw [exprWithin, exec_tooDeep]
    exact ⟨hp.report _ le_rfl (Nat.le_succ _), fun h => absurd h (by simp)⟩
  | succ levels ih => exact fences_nested (fences_climb ih power)

theorem fences_parseExpr (power : Power) : Fences m Anywhere (parseExpr power) Anywhere :=
  Fences.get_bind fun p hp _ => fences_exprWithin p.levels power p hp trivial

theorem fences_parseStatement : Fences m Anywhere parseStatement Anywhere :=
  fences_statement fences_parseExpr

end Parsing

end MonkeySyntax
