import MonkeySyntax.Proofs.Grammar.Acceptance
import MonkeySyntax.Proofs.Parsing.Gathering

/-! # The rules gather the trees they build

Every rule of the language yields the items of the tree that it builds, on any tokens whatever.

* `yields_binding`, `yields_block`, `yields_conditional`, `yields_arguments`, … — the rules, given that
  expressions yield their items.
* **`yields_exprWithin`** — expressions do, by induction on the levels that are left.
* `sweeps_programItem`, **`gathers_parseTokens`** — a program is gathered from its first token on. -/

namespace MonkeySyntax

open Parsing ParseM

/-! ### The kinds that a rule is run at -/

/-- A binding is read at `let` only, and a return at `return`. -/
theorem Grammar.kind_of_standardStatementRule? {k : Kind} {rule : StatementRule}
    (h : Grammar.standardStatementRule? k = some rule) :
    rule = .binding ∧ k = .kwLet ∨ rule = .returning ∧ k = .kwReturn := by
  cases k <;> simp_all [standardStatementRule?]

/-- The kinds at which a first part is read by a rule. -/
theorem Grammar.kind_of_standardPrefixRule? {k : Kind} {rule : PrefixRule}
    (h : Grammar.standardPrefixRule? k = some rule) :
    match rule with
    | .identifier => k = .identifier
    | .integer => k = .integer
    | .boolean => k = .kwTrue ∨ k = .kwFalse
    | .unary => k = .bang ∨ k = .minus
    | .grouping => k = .openParen
    | .conditional => k = .kwIf
    | .function => k = .kwFn := by
  cases k <;> simp [standardPrefixRule?] at h <;> subst h <;> simp

namespace Parsing

variable {expr : Power → ParseM Expr} {o p : Parser} {xs : List Item}

/-- The items of a statement that was read or given up. -/
def keptItems : Option Statement → List Item
  | none => []
  | some s => s.items

/-- Of a list of statements those that were read are kept. -/
theorem flatMap_keptItems (ss : List (Option Statement)) :
    ss.flatMap keptItems = Statement.allItems (ss.filterMap id) := by
  induction ss with
  | nil => rfl
  | cons s ss ih =>
    rw [List.flatMap_cons, ih]
    cases s with
    | none => rfl
    | some s => rfl

/-- A statement that was given up leaves nothing in the tree. -/
theorem gathers_kept {m : ParseM Statement} (h : Yields o Statement.items m p) :
    o.Gathers (keptItems (m.exec p).1) (m.exec p).2 := by
  unfold Yields at h
  cases hs : (m.exec p).1 with
  | none =>
    rw [hs] at h
    exact h.drop (List.nil_sublist _)
  | some s =>
    rw [hs] at h
    exact h

section Rules

variable (hexpr : ∀ power (q : Parser), q.Standard → Yields q Expr.items (expr power) q)
include hexpr

/-- An expression at the next token, where a failure is taken for an answer. -/
theorem yields_child (hp : p.Standard) (h : o.Gathers xs p) (power : Power) :
    Yields o (xs ++ Expr.items? ·) (attempt (expr power)) p.advance :=
  (hexpr power p.advance hp.advance).attempt h

/-! ### Statements and blocks -/

theorem yields_binding (hp : p.Standard) (hlet : p.current.kind = .kwLet) :
    Yields p Statement.items (binding expr) p := by
  have hkeyword : p.Gathers [.binding p.current] p := .take (.binding hlet)
  apply yields_currentToken_bind
  apply yields_expect_bind hkeyword
  intro hname
  have htarget := hkeyword.takeNext (.name hname)
  apply yields_expect_bind htarget
  intro _
  apply yields_advance_bind
  -- the value stands behind the sign, which is no item
  apply (yields_child hexpr hp.advance.advance htarget.skip .lowest).bind
  intro value q hvalue
  apply (yields_skipSemicolons hvalue).bind
  intro _ r hr
  exact yields_pure hr

theorem yields_returning (hp : p.Standard) (hreturn : p.current.kind = .kwReturn) :
    Yields p Statement.items (returning expr) p := by
  have hkeyword : p.Gathers [.returning p.current] p := .take (.returning hreturn)
  apply yields_currentToken_bind
  apply yields_advance_bind
  apply (yields_child hexpr hp hkeyword .lowest).bind
  intro value q hvalue
  apply (yields_skipSemicolons hvalue).bind
  intro _ r hr
  exact yields_pure hr

theorem yields_expressionStatement (hp : p.Standard) :
    Yields p Statement.items (expressionStatement expr) p := by
  have hvalue : Yields p (outcomeItems Expr.items) (attempt (expr .lowest)) p := hexpr .lowest p hp
  apply hvalue.bind
  intro value q hq
  have hsemicolon : Yields p (fun _ => outcomeItems Expr.items value)
      (advanceIf (peekIs .semicolon)) q := by
    unfold Yields
    rw [exec_advanceIf]
    split
    · exact hq.skip
    · exact hq
  apply hsemicolon.bind
  intro _ r hr
  exact (yields_getM hr).map fun x => rfl

/-- Statements yield their items when expressions do. -/
theorem yields_statement (hp : p.Standard) : Yields p Statement.items (statement expr) p := by
  apply yields_get_bind
  rw [hp.statementRule?_eq]
  cases hrule : Grammar.standardStatementRule? p.current.kind with
  | none => exact yields_expressionStatement hexpr hp
  | some rule =>
    obtain ⟨rfl, hkind⟩ | ⟨rfl, hkind⟩ := Grammar.kind_of_standardStatementRule? hrule
    · exact yields_binding hexpr hp hkind
    · exact yields_returning hexpr hp hkind

/-- A statement of a block is read or given up, and the parser moves on behind it. -/
theorem sweeps_blockItem : Sweeps keptItems (blockItem expr) := by
  intro p hp
  have hstatement := yields_statement hexpr hp
  by_cases heof : p.current.kind = .eof
  · have hrun : (blockItem expr).exec p =
        (none, p.report (p.unexpected .closeBrace p.current) p.current) := by
      rw [blockItem, exec_bind_some (exec_get p), if_pos heof, exec_reject]
    rw [hrun]
    refine ⟨fun a r h => absurd h (by simp), fun r h => ?_⟩
    obtain rfl : _ = r := (Prod.mk.inj h).2
    exact .fault (.unclosed heof)
  · have hrun : (blockItem expr).exec p =
        (some ((statement expr).exec p).1, ((statement expr).exec p).2.advance) := by
      rw [blockItem, exec_bind_some (exec_get p), if_neg heof, exec_bind_some (exec_attempt _ p),
        exec_bind_some (exec_advance _), exec_pure]
    rw [hrun]
    refine ⟨fun a r h => ?_, fun r h => absurd h (by simp)⟩
    obtain ⟨ha, rfl⟩ := Prod.mk.inj h
    obtain rfl := Option.some.inj ha
    exact ⟨_, gathers_kept hstatement, rfl⟩

/-- Blocks yield their items when expressions do. -/
theorem yields_block (hp : p.Standard) (hbrace : p.current.kind = .openBrace) :
    Yields p Block.items (block expr) p := by
  have hopen : p.Gathers [.brace p.current] p := .take (.brace hbrace)
  have hloop : Yields p.advance (·.flatMap keptItems)
      (collectWhile (!currentIs .closeBrace ·) (blockItem expr)) p.advance :=
    (sweeps_blockItem hexpr).collectWhile hp.advance
  apply yields_currentToken_bind
  apply yields_advance_bind
  apply (hloop.behind hopen).bind
  intro ss q hss
  apply yields_pure
  rwa [flatMap_keptItems] at hss

/-- A block that begins at the next token, if a brace stands there. -/
theorem yields_expect_block (hp : p.Standard) (h : o.Gathers xs p) {β : Type} {w : β → List Item}
    {f : Block → ParseM β} (hf : ∀ b q, o.Gathers (xs ++ b.items) q → Yields o w (f b) q) :
    Yields o w (do let _ ← expect .openBrace; let b ← block expr; f b) p := by
  apply yields_expect_bind h
  intro hbrace
  have hblock := yields_block hexpr hp.advance (by rwa [Parser.current_advance])
  exact (hblock.behind h).bind hf

/-! ### First parts -/

omit hexpr in
theorem yields_integer (hkind : p.current.kind = .integer)
    (hrule : p.grammar.prefixRule? p.current.kind = some .integer) :
    Yields p Expr.items integer p := by
  apply yields_currentToken_bind
  cases hvalue : integerValue? p.current.text with
  | none => exact yields_reject (.invalidInteger hrule hvalue) Expr.items
  | some value => exact yields_pure (.take (.number hkind hvalue))

theorem yields_unary (hp : p.Standard) (hkind : p.current.kind = .bang ∨ p.current.kind = .minus) :
    Yields p Expr.items (unary expr) p := by
  have hsign : p.Gathers [.prefixSign p.current p.current.text] p := .take (.prefixSign hkind)
  apply yields_currentToken_bind
  apply yields_advance_bind
  apply (yields_child hexpr hp hsign .unary).bind
  intro operand q hq
  exact yields_pure hq

/-- The parentheses of a grouping are no items. -/
theorem yields_grouping (hp : p.Standard) : Yields p Expr.items (grouping expr) p := by
  apply yields_advance_bind
  apply (yields_child hexpr hp (.stay p) .lowest).bind
  intro inner q hq
  apply yields_expect_bind hq
  intro _
  apply yields_getM
  rw [outcomeItems_items]
  exact hq.skip

theorem yields_otherwise (hp : p.Standard) (h : o.Gathers xs p) :
    Yields o (xs ++ Block.alternativeItems ·) (otherwise expr) p := by
  apply yields_get_bind
  split
  · apply yields_advance_bind
    simp only [← bind_pure_comp]
    apply yields_expect_block hexpr hp.advance h.skip
    intro b q hq
    exact yields_pure hq
  · apply yields_pure
    show o.Gathers (xs ++ []) p
    rwa [List.append_nil]

theorem yields_conditional (hp : p.Standard) (hkind : p.current.kind = .kwIf) :
    Yields p Expr.items (conditional expr) p := by
  have hkeyword : p.Gathers [.choice p.current] p := .take (.choice hkind)
  apply yields_currentToken_bind
  apply yields_expect_bind hkeyword
  intro _
  apply yields_advance_bind
  apply (yields_child hexpr hp.advance hkeyword.skip .lowest).bind
  intro condition q hcondition
  apply yields_expect_bind hcondition
  intro _
  have hclose := hcondition.skip
  apply yields_expect_block hexpr (hclose.standard hp) hclose
  intro consequence r hconsequence
  apply (yields_otherwise hexpr (hconsequence.standard hp) hconsequence).bind
  intro alternative s hs
  apply yields_pure
  -- the items of the tree are the same list, put together the other way round
  show p.Gathers (.choice p.current :: _) s
  simpa only [List.cons_append, List.nil_append, List.append_assoc] using hs

omit hexpr in
/-- The name of a parameter at the next token. -/
theorem yields_parameter (h : o.Gathers xs p) :
    Yields o (fun i => xs ++ [.name i]) parameter p := by
  unfold parameter
  rw [← bind_pure_comp]
  apply yields_expect_bind h
  intro hname
  exact yields_pure (h.takeNext (.name hname))

omit hexpr in
theorem yields_parameters (h : o.Gathers xs p) :
    Yields o (fun is => xs ++ is.map .name) parameters p := by
  apply yields_get_bind
  split
  · apply yields_advance_bind
    apply yields_pure
    show o.Gathers (xs ++ []) p.advance
    rw [List.append_nil]
    exact h.skip
  · apply (yields_parameter h).bind
    intro first q hfirst
    -- each further name stands behind a comma
    have hround (ys : List Item) (r : Parser) (hr : o.Gathers ys r)
        (_ : peekIs .comma r = true) :
        Yields o (fun i => ys ++ [.name i]) (do advance; parameter) r := by
      apply yields_advance_bind
      exact yields_parameter hr.skip
    apply (yields_collectWhile (v := fun i => [.name i]) hfirst hround).bind
    intro others r hothers
    apply yields_expect_bind hothers
    intro _
    apply yields_pure
    rw [← List.map_eq_flatMap, List.append_assoc, List.singleton_append, ← List.map_cons] at hothers
    exact hothers.skip

theorem yields_function (hp : p.Standard) (hkind : p.current.kind = .kwFn) :
    Yields p Expr.items (function expr) p := by
  have hkeyword : p.Gathers [.function p.current] p := .take (.function hkind)
  apply yields_currentToken_bind
  apply yields_expect_bind hkeyword
  intro _
  apply (yields_parameters hkeyword.skip).bind
  intro names q hnames
  apply yields_expect_block hexpr (hnames.standard hp) hnames
  intro body r hbody
  apply yields_pure
  show p.Gathers (.function p.current :: _) r
  simpa only [List.cons_append, List.nil_append, List.append_assoc] using hbody

/-- First parts yield their items, each at the kinds that its rule is for. -/
theorem yields_prefixBy (hp : p.Standard) {rule : PrefixRule}
    (hrule : p.grammar.prefixRule? p.current.kind = some rule) :
    Yields p Expr.items (prefixBy expr rule) p := by
  have hkind := Grammar.kind_of_standardPrefixRule? (hp.prefixRule?_eq ▸ hrule)
  cases rule with
  | identifier => exact .take (.name hkind)
  | integer => exact yields_integer hkind hrule
  | boolean => exact .take (.truth hkind)
  | unary => exact yields_unary hexpr hp hkind
  | grouping => exact yields_grouping hexpr hp
  | conditional => exact yields_conditional hexpr hp hkind
  | function => exact yields_function hexpr hp hkind

/-! ### Continuations -/

theorem yields_argument (hp : p.Standard) (h : o.Gathers xs p) :
    Yields o (xs ++ Expr.items? ·) (argument expr) p := by
  apply yields_advance_bind
  exact yields_child hexpr hp h .lowest

omit hexpr in
/-- Values one of which is missing cannot be taken out together. -/
theorem mapM_id_eq_none {α : Type} {os : List (Option α)} (h : none ∈ os) : os.mapM id = none := by
  induction os with
  | nil => exact absurd h (by simp)
  | cons r os ih =>
    cases r with
    | none => rfl
    | some a =>
      have hrest := ih (by simpa using h)
      simp [hrest]

omit hexpr in
/-- Arguments are taken together unless one of them is missing, which has been reported. -/
theorem gathers_mapM_id {q : Parser} {os : List (Option Expr)}
    (h : o.Gathers (xs ++ os.flatMap Expr.items?) q) :
    o.Gathers (outcomeItems (xs ++ Expr.allItems ·) (os.mapM id)) q := by
  by_cases hmissing : none ∈ os
  · have habsent : Item.absent ∈ os.flatMap Expr.items? :=
      List.mem_flatMap.2 ⟨none, hmissing, List.mem_singleton.2 rfl⟩
    rw [mapM_id_eq_none hmissing]
    exact h.lose (List.mem_append_right _ habsent)
  · have hall : ∀ r ∈ os, ∃ x, r = some x ∧ Given x := by
      intro r hr
      cases r with
      | none => exact absurd hr hmissing
      | some x => exact ⟨x, rfl, trivial⟩
    obtain ⟨as, rfl⟩ := exists_eq_map_some hall
    rw [List.flatMap_map] at h
    rw [mapM_id_map_some]
    show o.Gathers (xs ++ Expr.allItems as) q
    rw [Expr.allItems_eq_flatMap]
    exact h

theorem yields_arguments (ho : o.Standard) (h : o.Gathers xs p) :
    Yields o (xs ++ Expr.allItems ·) (arguments expr) p := by
  apply yields_get_bind
  split
  · apply yields_advance_bind
    apply yields_pure
    show o.Gathers (xs ++ []) p.advance
    rw [List.append_nil]
    exact h.skip
  · apply (yields_argument hexpr (h.standard ho) h).bind
    intro first q hfirst
    have hround (ys : List Item) (r : Parser) (hr : o.Gathers ys r)
        (_ : peekIs .comma r = true) :
        Yields o (ys ++ Expr.items? ·) (do advance; argument expr) r := by
      apply yields_advance_bind
      exact yields_argument hexpr (hr.standard ho).advance hr.skip
    apply (yields_collectWhile hfirst hround).bind
    intro others r hothers
    apply yields_expect_bind hothers
    intro _
    apply yields_getM
    apply gathers_mapM_id
    rw [List.append_assoc, ← List.flatMap_cons] at hothers
    exact hothers.skip

/-- What an operator continues yields the items of the left part, the operator and the right part. -/
theorem yields_infixBy (ho : o.Standard) {left : Expr} (h : o.Gathers left.items p) {power : Power}
    {op : Operator} (hop : p.operatorAhead? power = some op) :
    Yields o Expr.items (infixBy expr op.rule left op.power) p.advance := by
  have hp := h.standard ho
  obtain ⟨-, -, hrule⟩ := Parser.operatorAhead?_eq_some hp hop
  rcases hrule with ⟨hrule, hkind⟩ | ⟨hrule, hkind, -⟩
  · have hsign := h.takeNext (.infixSign hkind)
    rw [hrule]
    apply yields_currentToken_bind
    apply yields_advance_bind
    apply (yields_child hexpr hp.advance hsign op.power).bind
    intro right q hright
    apply yields_pure
    rw [Parser.current_advance]
    rwa [List.append_assoc] at hright
  · have hparen := h.takeNext (.call hkind)
    rw [hrule]
    apply yields_currentToken_bind
    apply (yields_arguments hexpr ho hparen).bind
    intro args q hargs
    apply yields_pure
    rw [Parser.current_advance]
    rwa [List.append_assoc] at hargs

theorem yields_continueWithin (ho : o.Standard) (power : Power) (n : Nat) {left : Expr}
    (h : o.Gathers left.items p) : Yields o Expr.items (continueWithin expr power n left) p := by
  induction n generalizing left p with
  | zero => exact yields_pure h
  | succ n ih =>
    apply yields_get_bind
    split
    · exact yields_pure h
    · next op hop =>
      apply yields_advance_bind
      apply (yields_infixBy hexpr ho h hop).bind
      intro x q hx
      exact ih hx

/-! ### Whole expressions -/

theorem yields_climb (hp : p.Standard) (power : Power) : Yields p Expr.items (climb expr power) p := by
  apply yields_get_bind
  split
  · next hrule => exact yields_reject (.noExpression hrule) Expr.items
  · next rule hrule =>
    apply (yields_prefixBy hexpr hp hrule).bind
    intro left q hleft
    apply yields_get_bind
    exact yields_continueWithin hexpr hp power q.remaining hleft

end Rules

/-- **Expressions yield their items**, by induction on the levels that are left. -/
theorem yields_exprWithin (levels : Nat) (power : Power) (p : Parser) (hp : p.Standard) :
    Yields p Expr.items (exprWithin levels power) p := by
  induction levels generalizing power p with
  | zero => exact .fault .tooDeep
  | succ levels ih =>
    apply Yields.nested
    · intro q hq
      exact yields_climb ih hq power
    · exact hp

theorem yields_parseExpr (power : Power) (p : Parser) (hp : p.Standard) :
    Yields p Expr.items (parseExpr power) p := by
  apply yields_get_bind
  exact yields_exprWithin p.levels power p hp

/-! ### Programs -/

/-- A statement of a program is read or given up, and the parser moves on behind it. -/
theorem sweeps_programItem : Sweeps keptItems programItem := by
  intro p hp
  have hstatement : Yields p Statement.items parseStatement p := yields_statement yields_parseExpr hp
  rw [exec_programItem]
  refine ⟨fun a r h => ?_, fun r h => absurd h (by simp)⟩
  obtain ⟨ha, rfl⟩ := Prod.mk.inj h
  obtain rfl := Option.some.inj ha
  refine ⟨_, ?_, rfl⟩
  rw [restart]
  split
  · exact (gathers_kept hstatement).clear
  · exact gathers_kept hstatement

end Parsing

/-- **A program is gathered** from its first token on, and the diagnostics are those of the parser that
this leads to. -/
theorem gathers_parseTokens {g : Grammar} {ts : List Token} (hp : (Parser.ofTokens g ts).Standard) :
    ∃ q, (Parser.ofTokens g ts).Gathers (parseTokens g ts).program.items q ∧
      (parseTokens g ts).diagnostics = q.diagnostics.toList := by
  have hloop : Yields (.ofTokens g ts) (·.flatMap keptItems)
      (collectWhile (!currentIs .eof ·) programItem) (.ofTokens g ts) :=
    sweeps_programItem.collectWhile hp
  rcases hrun : (collectWhile (!currentIs .eof ·) programItem).exec (.ofTokens g ts)
    with ⟨_ | items, q⟩
  · -- without a list there is no program, which has no items either
    unfold Yields at hloop
    rw [hrun] at hloop
    refine ⟨q, ?_, ?_⟩
    · rw [parseTokens, parseProgram, exec_bind_none hrun]
      exact hloop.drop (List.nil_sublist _)
    · rw [parseTokens, parseProgram, exec_bind_none hrun]
  · unfold Yields at hloop
    rw [hrun] at hloop
    rw [parseTokens_eq hrun]
    refine ⟨q, ?_, rfl⟩
    show (Parser.ofTokens g ts).Gathers (Statement.allItems (items.filterMap id)) q
    rw [← flatMap_keptItems]
    exact hloop

end MonkeySyntax
