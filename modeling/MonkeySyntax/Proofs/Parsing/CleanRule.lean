import MonkeySyntax.Proofs.Parsing.CleanRun

/-! # Clean runs of the rules

For each rule of the language, what a clean run of it consists of: which tokens it requires, which
inner expressions it reads cleanly, and what it builds. All statements are equivalences, so they
serve to take a clean run apart and to put one together.

* **`Parsing.continueExpr`** — the continuation of an expression without a bound on its length, and
  `reads_continueExpr_none`, `reads_continueExpr_some`, its end and one round of it.
* `reads_binding`, `reads_block`, `reads_conditional`, `reads_arguments`, … — the rules.
* `reads_climb`, `reads_exprWithin_succ` — whole expressions. -/

namespace MonkeySyntax

open Parsing ParseM

namespace Parsing

variable {expr : Power → ParseM Expr} {p q r : Parser}

/-! ### Loops that read a token in each round -/

/-- An action that moves on first leaves fewer tokens, if it is inside the source. -/
theorem remaining_lt_of_advance {α : Type} {m : ParseM α} (hm : Keeps Parser.Later m) {a : α}
    (hrun : (do advance; m).exec p = (some a, q)) (hsize : p.index < p.tokens.size) :
    q.remaining < p.remaining := by
  have hq : Parser.Later p.advance q := by
    have h := hm p.advance
    rwa [← exec_bind_some (exec_advance p) fun _ => m, hrun] at h
  have hindex := hq.index_le
  rw [Parser.advance_index] at hindex
  exact ((Parser.later_advance p).trans hq).remaining_lt (by omega) hsize

/-- What comes next is inside the source unless it is `eof`. -/
theorem index_lt_size_of_peek (hp : p.Standard) (h : p.peek.kind ≠ .eof) :
    p.index < p.tokens.size :=
  Nat.lt_of_succ_lt (hp.lt_size h)

/-- Passing over tokens of a kind reads one in each round. -/
theorem consuming_peekIs {α : Type} (kind : Kind) (hkind : kind ≠ .eof) {m : ParseM α}
    (hm : Keeps Parser.Later m) : Consuming (peekIs kind) (do advance; m) := by
  intro p hp hc a q hrun
  have hpeek : p.peek.kind = kind := by simpa [peekIs] using hc
  exact remaining_lt_of_advance hm hrun (index_lt_size_of_peek hp (hpeek ▸ hkind))

theorem consuming_semicolon : Consuming (peekIs .semicolon) advance := by
  have h := consuming_peekIs .semicolon (by decide)
    (keeps_pure Parser.stepRelation_later ())
  exact h

theorem consuming_blockItem (hexpr : ∀ power, Candid Given (expr power)) :
    Consuming (!currentIs .closeBrace ·) (blockItem expr) := by
  intro p hp _ a q hrun
  rw [blockItem, exec_bind_some (exec_get p)] at hrun
  split at hrun
  · exact absurd hrun (by simp)
  · next heof =>
    have hsize : p.index < p.tokens.size := hp.lt_size heof
    have hstatement := (candid_statement hexpr).keeps p
    rw [exec_bind_some (exec_attempt _ p), exec_bind_some (exec_advance _), exec_pure,
      Prod.mk.injEq] at hrun
    obtain ⟨-, rfl⟩ := hrun
    have hindex := hstatement.index_le
    exact (hstatement.trans (Parser.later_advance _)).remaining_lt
      (by rw [Parser.advance_index]; omega) hsize

/-! ### Continuations -/

/-- Continues an expression while an operator comes next that binds tighter than `power`. -/
def continueExpr (expr : Power → ParseM Expr) (power : Power) (left : Expr) : ParseM Expr := do
  continueWithin expr power (← get).remaining left

theorem candid_continueExpr (hexpr : ∀ power, Candid Given (expr power)) (power : Power)
    (left : Expr) : Candid Given (continueExpr expr power left) :=
  Candid.get_bind fun p => candid_continueWithin hexpr power p.remaining left

/-- An operator ahead is a token of the source. -/
theorem index_lt_size_of_operator (hp : p.Standard) {power : Power} {op : Operator}
    (h : p.operatorAhead? power = some op) : p.index < p.tokens.size := by
  refine index_lt_size_of_peek hp fun heof => ?_
  rw [Parser.operatorAhead?, hp.operator?_eq, heof] at h
  exact absurd h (by simp [Grammar.standardOperator?])

/-- Any two bounds that are not below the number of tokens left continue an expression alike. -/
theorem exec_continueWithin_eq (hexpr : ∀ power, Candid Given (expr power)) (power : Power)
    (m n : Nat) (left : Expr) (hp : p.Standard) (hm : p.remaining ≤ m) (hn : p.remaining ≤ n) :
    (continueWithin expr power m left).exec p = (continueWithin expr power n left).exec p := by
  induction m generalizing n p left with
  | zero => exact absurd hm (by simp [Parser.remaining])
  | succ m ih =>
    cases n with
    | zero => exact absurd hn (by simp [Parser.remaining])
    | succ n =>
      rw [continueWithin, continueWithin, exec_bind_some (exec_get p), exec_bind_some (exec_get p)]
      cases hop : p.operatorAhead? power with
      | none => rfl
      | some op =>
        dsimp only
        rw [exec_bind_some (exec_advance p), exec_bind_some (exec_advance p)]
        have hinfix := (candid_infixBy hexpr op.rule left op.power).keeps p.advance
        rcases hrun : (infixBy expr op.rule left op.power).exec p.advance with ⟨_ | x, q⟩
        · rw [exec_bind_none hrun, exec_bind_none hrun]
        · have hq : Parser.Later p.advance q := by simpa [hrun] using hinfix
          have hindex := hq.index_le
          rw [Parser.advance_index] at hindex
          have hless := ((Parser.later_advance p).trans hq).remaining_lt (by omega)
            (index_lt_size_of_operator hp hop)
          -- what was read lies between the two places, so both bounds still suffice
          rw [exec_bind_some hrun, exec_bind_some hrun]
          exact ih n x ((hp.later (Parser.later_advance p)).later hq) (by omega) (by omega)

/-- Without an operator ahead the expression is complete. -/
theorem exec_continueExpr_none {power : Power} (h : p.operatorAhead? power = none) (left : Expr) :
    (continueExpr expr power left).exec p = (some left, p) := by
  rw [continueExpr, exec_bind_some (exec_get p), Parser.remaining, continueWithin,
    exec_bind_some (exec_get p), h, exec_pure]

/-- **One round of a continuation**: the operator ahead with what belongs to it, and on. -/
theorem exec_continueExpr_some (hexpr : ∀ power, Candid Given (expr power)) (hp : p.Standard)
    {power : Power} {op : Operator} (h : p.operatorAhead? power = some op) (left : Expr) :
    (continueExpr expr power left).exec p =
      (do let x ← infixBy expr op.rule left op.power; continueExpr expr power x).exec p.advance := by
  rw [continueExpr, exec_bind_some (exec_get p), Parser.remaining, continueWithin,
    exec_bind_some (exec_get p), h]
  dsimp only
  rw [exec_bind_some (exec_advance p)]
  have hinfix := (candid_infixBy hexpr op.rule left op.power).keeps p.advance
  rcases hrun : (infixBy expr op.rule left op.power).exec p.advance with ⟨_ | x, q⟩
  · rw [exec_bind_none hrun, exec_bind_none hrun]
  · have hq : Parser.Later p.advance q := by simpa [hrun] using hinfix
    have hindex := hq.index_le
    rw [Parser.advance_index] at hindex
    have hless : q.remaining < p.tokens.size - p.index + 1 :=
      ((Parser.later_advance p).trans hq).remaining_lt (by omega) (index_lt_size_of_operator hp h)
    rw [exec_bind_some hrun, exec_bind_some hrun, continueExpr, exec_bind_some (exec_get q)]
    exact exec_continueWithin_eq hexpr power _ _ x ((hp.later (Parser.later_advance p)).later hq)
      (by omega) le_rfl

theorem reads_continueExpr_none {power : Power} {left x : Expr}
    (h : p.operatorAhead? power = none) :
    Reads (continueExpr expr power left) p x q ↔ x = left ∧ q = p := by
  rw [← reads_pure, Reads, Reads, exec_continueExpr_none h, exec_pure]

theorem reads_continueExpr_some (hexpr : ∀ power, Candid Given (expr power)) (hp : p.Standard)
    {power : Power} {op : Operator} {left x : Expr} (h : p.operatorAhead? power = some op) :
    Reads (continueExpr expr power left) p x q ↔
      ∃ y r, Reads (infixBy expr op.rule left op.power) p.advance y r ∧
        Reads (continueExpr expr power y) r x q := by
  rw [← reads_bind (candid_infixBy hexpr op.rule left op.power).keeps
    fun y => (candid_continueExpr hexpr power y).keeps, Reads, Reads,
    exec_continueExpr_some hexpr hp h, Parser.advance_diagnostics]

/-- A whole expression is read cleanly when its first part and its continuation are. -/
theorem reads_climb (hexpr : ∀ power, Candid Given (expr power)) {power : Power} {x : Expr} :
    Reads (climb expr power) p x q ↔
      ∃ rule left r, p.grammar.prefixRule? p.current.kind = some rule ∧
        Reads (prefixBy expr rule) p left r ∧ Reads (continueExpr expr power left) r x q := by
  rw [climb, reads_get_bind]
  cases h : p.grammar.prefixRule? p.current.kind with
  | none =>
    constructor
    · exact fun hreads => absurd hreads (not_reads_of_none rfl)
    · rintro ⟨rule, left, r, hrule, -⟩
      exact absurd hrule (by simp)
  | some rule =>
    have hlater := keeps_prefixBy Parser.stepRelation_later (fun power => (hexpr power).keeps) h
    have hcontinue (left : Expr) := (candid_continueExpr hexpr power left).keeps
    refine (reads_bind_of hlater hcontinue).trans ?_
    constructor
    · rintro ⟨left, r, hleft, hrest⟩
      exact ⟨rule, left, r, rfl, hleft, hrest⟩
    · rintro ⟨rule', left, r, hrule, hleft, hrest⟩
      obtain rfl : rule = rule' := Option.some.inj hrule
      exact ⟨left, r, hleft, hrest⟩

/-- An expression is read cleanly inside one more expression, if that one may be opened. -/
theorem reads_exprWithin_succ {levels : Nat} {power : Power} {x : Expr} :
    Reads (exprWithin (levels + 1) power) p x q ↔ p.depth < p.grammar.depthLimit ∧
      ∃ r, Reads (climb (exprWithin levels) power) (p.withDepth (p.depth + 1)) x r ∧
        q = r.withDepth (r.depth - 1) := by
  rw [exprWithin, reads_nested]

/-- Without a level left no expression is read cleanly. -/
theorem not_reads_exprWithin_zero {power : Power} {x : Expr} :
    ¬ Reads (exprWithin 0 power) p x q :=
  not_reads_of_none rfl

/-! ### Statements and blocks -/

section Rules

variable (hexpr : ∀ power, Candid Given (expr power))
include hexpr

theorem reads_binding {s : Statement} :
    Reads (binding expr) p s q ↔
      p.peek.kind = .identifier ∧ p.advance.peek.kind = .assign ∧
        ∃ x r, Reads (expr .lowest) p.advance.advance.advance x r ∧ Reads skipSemicolons r () q ∧
          s = .binding p.current (.ofToken p.peek) (some x) := by
  -- the rule from its last step back to its first one, each of which may only add diagnostics
  have hpure (t u : Token) (value : Option Expr) :=
    candid_skipSemicolons.bind fun _ =>
      candid_pure (P := Given) (a := Statement.binding t (.ofToken u) value) trivial
  have hvalue (t u : Token) := (hexpr .lowest).attempt.bind fun value => hpure t u value
  have hassign (t u : Token) := (candid_expect .assign).bind fun _ =>
    candid_advance.bind fun _ => hvalue t u
  rw [binding, reads_currentToken_bind,
    reads_expect_bind fun u => (hassign p.current u).keeps,
    reads_expect_bind fun _ => (candid_advance.bind fun _ => hvalue p.current p.peek).keeps,
    reads_advance_bind, reads_attempt_bind (hexpr .lowest)
      fun value => (hpure p.current p.peek value).keeps]
  refine and_congr_right fun _ => and_congr_right fun _ => exists_congr fun x => exists_congr fun r =>
    and_congr_right fun _ => ?_
  rw [reads_bind_pure candid_skipSemicolons.keeps]
  constructor
  · rintro ⟨u, hr⟩
    exact hr
  · exact fun hr => ⟨(), hr⟩

theorem reads_returning {s : Statement} :
    Reads (returning expr) p s q ↔
      ∃ x r, Reads (expr .lowest) p.advance x r ∧ Reads skipSemicolons r () q ∧
        s = .returning p.current (some x) := by
  have hpure (t : Token) (value : Option Expr) :=
    candid_skipSemicolons.bind fun _ =>
      candid_pure (P := Given) (a := Statement.returning t value) trivial
  rw [returning, reads_currentToken_bind, reads_advance_bind,
    reads_attempt_bind (hexpr .lowest) fun value => (hpure p.current value).keeps]
  refine exists_congr fun x => exists_congr fun r => and_congr_right fun _ => ?_
  rw [reads_bind_pure candid_skipSemicolons.keeps]
  constructor
  · rintro ⟨u, hr⟩
    exact hr
  · exact fun hr => ⟨(), hr⟩

theorem reads_expressionStatement {s : Statement} :
    Reads (expressionStatement expr) p s q ↔
      ∃ x r, Reads (expr .lowest) p x r ∧
        q = (if peekIs .semicolon r then r.advance else r) ∧ s = .expression x := by
  have hrest (value : Option Expr) := (candid_advanceIf (peekIs .semicolon)).keeps.bind
    Parser.stepRelation_later fun _ => (keeps_getM Parser.stepRelation_later value).map
      Parser.stepRelation_later Statement.expression
  rw [expressionStatement, reads_attempt_bind (hexpr .lowest) hrest]
  refine exists_congr fun x => exists_congr fun r => and_congr_right fun _ => ?_
  rw [reads_advanceIf_bind, reads_map (keeps_getM Parser.stepRelation_later _)]
  constructor
  · rintro ⟨y, rfl, hy⟩
    obtain ⟨hxy, rfl⟩ := reads_getM.1 hy
    exact ⟨rfl, by rw [Option.some.inj hxy]⟩
  · rintro ⟨rfl, rfl⟩
    exact ⟨x, rfl, reads_getM.2 ⟨rfl, rfl⟩⟩

omit hexpr in
/-- A statement is read by the rule of its first token. -/
theorem reads_statement (hp : p.Standard) {s : Statement} :
    Reads (statement expr) p s q ↔
      Reads (statementBy expr ((Grammar.standardStatementRule? p.current.kind).getD .expression))
        p s q := by
  rw [statement, reads_get_bind, hp.statementRule?_eq]

theorem reads_blockItem {o : Option Statement} :
    Reads (blockItem expr) p o q ↔ p.current.kind ≠ .eof ∧
      ∃ s r, o = some s ∧ Reads (statement expr) p s r ∧ q = r.advance := by
  rw [blockItem, reads_get_bind]
  split
  · next h =>
    constructor
    · exact fun hreads => absurd hreads (not_reads_of_none rfl)
    · exact fun hreads => absurd h hreads.1
  · next h =>
    rw [reads_attempt_bind (candid_statement hexpr)
      fun o => (candid_advance.bind fun _ => candid_pure (P := Given) (a := o) trivial).keeps]
    constructor
    · rintro ⟨s, r, hs, ho⟩
      rw [reads_advance_bind] at ho
      obtain ⟨rfl, rfl⟩ := reads_pure.1 ho
      exact ⟨h, s, r, rfl, hs, rfl⟩
    · rintro ⟨-, s, r, rfl, hs, rfl⟩
      exact ⟨s, r, hs, reads_advance_bind.2 (reads_pure.2 ⟨rfl, rfl⟩)⟩

theorem reads_block {b : Block} :
    Reads (block expr) p b q ↔
      ∃ items, Reads (collectWhile (!currentIs .closeBrace ·) (blockItem expr)) p.advance items q ∧
        b = ⟨p.current, items.filterMap id⟩ := by
  rw [block, reads_currentToken_bind, reads_advance_bind,
    reads_bind_pure (candid_blockItem hexpr).collectWhile.keeps]

/-! ### First parts -/

omit hexpr in
theorem reads_integer {x : Expr} :
    Reads integer p x q ↔
      ∃ value, integerValue? p.current.text = some value ∧ x = .integer p.current value ∧ q = p := by
  rw [integer, reads_currentToken_bind]
  cases integerValue? p.current.text with
  | none =>
    constructor
    · exact fun hreads => absurd hreads (not_reads_of_none rfl)
    · rintro ⟨value, hvalue, -⟩
      exact absurd hvalue (by simp)
  | some value => simp [reads_pure]

theorem reads_unary {x : Expr} :
    Reads (unary expr) p x q ↔
      ∃ y, Reads (expr .unary) p.advance y q ∧
        x = .prefixOp p.current p.current.text (some y) := by
  rw [unary, reads_currentToken_bind, reads_advance_bind, reads_attempt_bind_pure (hexpr .unary)]

theorem reads_grouping {x : Expr} :
    Reads (grouping expr) p x q ↔
      ∃ r, Reads (expr .lowest) p.advance x r ∧ r.peek.kind = .closeParen ∧ q = r.advance := by
  have hinner (inner : Option Expr) : Keeps Parser.Later (inner.getM : ParseM Expr) :=
    keeps_getM Parser.stepRelation_later inner
  rw [grouping, reads_advance_bind, reads_attempt_bind (hexpr .lowest)
    fun inner => (candid_expect .closeParen).keeps.bind Parser.stepRelation_later fun _ =>
      hinner inner]
  constructor
  · rintro ⟨y, r, hy, hclose⟩
    obtain ⟨hkind, hget⟩ := (reads_expect_bind fun _ => hinner _).1 hclose
    obtain ⟨hx, rfl⟩ := reads_getM.1 hget
    obtain rfl : y = x := Option.some.inj hx
    exact ⟨r, hy, hkind, rfl⟩
  · rintro ⟨r, hx, hkind, rfl⟩
    exact ⟨x, r, hx, (reads_expect_bind fun _ => hinner _).2 ⟨hkind, reads_getM.2 ⟨rfl, rfl⟩⟩⟩

theorem reads_otherwise {b : Option Block} :
    Reads (otherwise expr) p b q ↔
      if peekIs .kwElse p then p.advance.peek.kind = .openBrace ∧
        ∃ c, Reads (block expr) p.advance.advance c q ∧ b = some c
      else b = none ∧ q = p := by
  rw [otherwise, reads_get_bind]
  split
  · rw [reads_advance_bind, reads_expect_bind fun _ => ((candid_block hexpr).map (Q := Given)
      fun _ _ => trivial).keeps, reads_map (candid_block hexpr).keeps]
    exact and_congr_right fun _ => exists_congr fun c => and_comm
  · exact reads_pure

theorem reads_conditional {x : Expr} :
    Reads (conditional expr) p x q ↔
      p.peek.kind = .openParen ∧ ∃ c r, Reads (expr .lowest) p.advance.advance c r ∧
        r.peek.kind = .closeParen ∧ r.advance.peek.kind = .openBrace ∧
        ∃ a s, Reads (block expr) r.advance.advance a s ∧
          ∃ b, Reads (otherwise expr) s b q ∧ x = .conditional p.current (some c) a b := by
  -- the rule from its last step back to the first one behind the keyword
  have halternative (t : Token) (c : Option Expr) (a : Block) :=
    (candid_otherwise hexpr).bind fun b =>
      candid_pure (P := Given) (a := Expr.conditional t c a b) trivial
  have hblocks (t : Token) (c : Option Expr) := (candid_block hexpr).bind fun a => halternative t c a
  have hbrace (t : Token) (c : Option Expr) := (candid_expect .openBrace).bind fun _ => hblocks t c
  have hclose (t : Token) (c : Option Expr) := (candid_expect .closeParen).bind fun _ => hbrace t c
  have hcondition (t : Token) := (hexpr .lowest).attempt.bind fun c => hclose t c
  rw [conditional, reads_currentToken_bind,
    reads_expect_bind fun _ => (candid_advance.bind fun _ => hcondition p.current).keeps,
    reads_advance_bind, reads_attempt_bind (hexpr .lowest) fun c => (hclose p.current c).keeps]
  refine and_congr_right fun _ => exists_congr fun c => exists_congr fun r =>
    and_congr_right fun _ => ?_
  rw [reads_expect_bind fun _ => (hbrace p.current (some c)).keeps,
    reads_expect_bind fun _ => (hblocks p.current (some c)).keeps,
    reads_bind (candid_block hexpr).keeps fun a => (halternative p.current (some c) a).keeps]
  refine and_congr_right fun _ => and_congr_right fun _ => exists_congr fun a =>
    exists_congr fun s => and_congr_right fun _ => ?_
  rw [reads_bind_pure (candid_otherwise hexpr).keeps]

omit hexpr in
theorem reads_parameter {i : Identifier} :
    Reads parameter p i q ↔ p.peek.kind = .identifier ∧ i = .ofToken p.peek ∧ q = p.advance := by
  rw [parameter, reads_map (candid_expect .identifier).keeps]
  constructor
  · rintro ⟨t, rfl, ht⟩
    obtain ⟨hkind, rfl, rfl⟩ := reads_expect.1 ht
    exact ⟨hkind, rfl, rfl⟩
  · rintro ⟨hkind, rfl, rfl⟩
    exact ⟨p.peek, rfl, reads_expect.2 ⟨hkind, rfl, rfl⟩⟩

omit hexpr in
theorem reads_parameters {is : List Identifier} :
    Reads parameters p is q ↔
      if peekIs .closeParen p then is = [] ∧ q = p.advance
      else ∃ i r js, Reads parameter p i r ∧ is = i :: js ∧
        ∃ s, Reads (collectWhile (peekIs .comma) (do advance; parameter)) r js s ∧
          s.peek.kind = .closeParen ∧ q = s.advance := by
  have hothers : Candid _ (collectWhile (peekIs .comma) (do advance; parameter)) :=
    (candid_advance.bind fun _ => candid_parameter).collectWhile
  have hclose (is : List Identifier) := (candid_expect .closeParen).bind fun _ =>
    candid_pure (P := Given) (a := is) trivial
  rw [parameters, reads_get_bind]
  split
  · rw [reads_advance_bind, reads_pure]
  · rw [reads_bind candid_parameter.keeps
      fun i => (hothers.bind fun js => hclose (i :: js)).keeps]
    refine exists_congr fun i => exists_congr fun r => ?_
    rw [reads_bind hothers.keeps fun js => (hclose (i :: js)).keeps]
    constructor
    · rintro ⟨hi, js, s, hjs, his⟩
      obtain ⟨hkind, hpure⟩ := (reads_expect_bind fun _ => keeps_pure Parser.stepRelation_later _).1 his
      obtain ⟨rfl, rfl⟩ := reads_pure.1 hpure
      exact ⟨js, hi, rfl, s, hjs, hkind, rfl⟩
    · rintro ⟨js, hi, rfl, s, hjs, hkind, rfl⟩
      exact ⟨hi, js, s, hjs, (reads_expect_bind fun _ => keeps_pure Parser.stepRelation_later _).2
        ⟨hkind, reads_pure.2 ⟨rfl, rfl⟩⟩⟩

theorem reads_function {x : Expr} :
    Reads (function expr) p x q ↔
      p.peek.kind = .openParen ∧ ∃ is r, Reads parameters p.advance is r ∧
        r.peek.kind = .openBrace ∧ ∃ b, Reads (block expr) r.advance b q ∧
          x = .function p.current is b := by
  have hbody (t : Token) (is : List Identifier) := (candid_block hexpr).bind fun b =>
    candid_pure (P := Given) (a := Expr.function t is b) trivial
  have hbrace (t : Token) (is : List Identifier) := (candid_expect .openBrace).bind fun _ => hbody t is
  rw [function, reads_currentToken_bind,
    reads_expect_bind fun _ => (candid_parameters.bind fun is => hbrace p.current is).keeps,
    reads_bind candid_parameters.keeps fun is => (hbrace p.current is).keeps]
  refine and_congr_right fun _ => exists_congr fun is => exists_congr fun r =>
    and_congr_right fun _ => ?_
  rw [reads_expect_bind fun _ => (hbody p.current is).keeps,
    reads_bind_pure (candid_block hexpr).keeps]

/-! ### Operators and calls -/

theorem reads_binary {left x : Expr} {power : Power} :
    Reads (binary expr left power) p x q ↔
      ∃ y, Reads (expr power) p.advance y q ∧
        x = .infixOp p.current p.current.text left (some y) := by
  rw [binary, reads_currentToken_bind, reads_advance_bind, reads_attempt_bind_pure (hexpr power)]

theorem reads_argument {o : Option Expr} :
    Reads (argument expr) p o q ↔ ∃ x, o = some x ∧ Reads (expr .lowest) p.advance x q := by
  rw [argument, reads_advance_bind, reads_attempt (hexpr .lowest)]

theorem reads_arguments {xs : List Expr} :
    Reads (arguments expr) p xs q ↔
      if peekIs .closeParen p then xs = [] ∧ q = p.advance
      else ∃ x r ys, Reads (expr .lowest) p.advance x r ∧ xs = x :: ys ∧
        ∃ s, Reads (collectWhile (peekIs .comma) (do advance; argument expr)) r (ys.map some) s ∧
          s.peek.kind = .closeParen ∧ q = s.advance := by
  have hothers : Candid _ (collectWhile (peekIs .comma) (do advance; argument expr)) :=
    (candid_advance.bind fun _ => candid_argument hexpr).collectWhile
  have hget (os : List (Option Expr)) : Keeps Parser.Later ((os.mapM id).getM : ParseM (List Expr)) :=
    keeps_getM Parser.stepRelation_later _
  have hclose (os : List (Option Expr)) :=
    (candid_expect .closeParen).keeps.bind Parser.stepRelation_later fun _ => hget os
  rw [arguments, reads_get_bind]
  split
  · rw [reads_advance_bind, reads_pure]
  · rw [reads_bind (candid_argument hexpr).keeps fun o =>
      hothers.keeps.bind Parser.stepRelation_later fun os => hclose (o :: os)]
    constructor
    · rintro ⟨o, r, ho, hrest⟩
      obtain ⟨x, rfl, hx⟩ := (reads_argument hexpr).1 ho
      obtain ⟨os, s, hos, hend⟩ := (reads_bind hothers.keeps fun os => hclose _).1 hrest
      obtain ⟨hkind, hlist⟩ := (reads_expect_bind fun _ => hget _).1 hend
      obtain ⟨hxs, rfl⟩ := reads_getM.1 hlist
      -- the loop ran cleanly, so all the arguments are there
      obtain ⟨ys, rfl⟩ : ∃ ys : List Expr, os = ys.map some := by
        rcases hothers.reports r with h | ⟨as, has, hall⟩
        · rw [hos.1] at h
          exact absurd hos.2 (by simp at h; omega)
        · rw [hos.1] at has
          exact exists_eq_map_some (Option.some.inj has ▸ hall)
      rw [← List.map_cons, mapM_id_map_some] at hxs
      exact ⟨x, r, ys, hx, (Option.some.inj hxs).symm, s, hos, hkind, rfl⟩
    · rintro ⟨x, r, ys, hx, rfl, s, hys, hkind, rfl⟩
      refine ⟨some x, r, (reads_argument hexpr).2 ⟨x, rfl, hx⟩,
        (reads_bind hothers.keeps fun os => hclose _).2 ⟨ys.map some, s, hys,
          (reads_expect_bind fun _ => hget _).2 ⟨hkind, reads_getM.2 ⟨?_, rfl⟩⟩⟩⟩
      rw [← List.map_cons, mapM_id_map_some]

theorem reads_call {callee x : Expr} :
    Reads (call expr callee) p x q ↔
      ∃ xs, Reads (arguments expr) p xs q ∧ x = .call p.current callee xs := by
  rw [call, reads_currentToken_bind, reads_bind_pure (candid_arguments hexpr).keeps]

end Rules

end Parsing

end MonkeySyntax
