import MonkeySyntax.Proofs.Grammar.Acceptance
import MonkeySyntax.Proofs.Parsing.Course

/-! # The courses of the rules

Every action of the parser takes the course of its routine: the bounds that close the recursion of
the actions are never what ends a loop or an expression.

* **`Follows free routine m p`** — from `p` the action `m` takes a course of the routine.
* `follows_expect_bind`, `follows_operand_bind`, … — the parts of a rule, one by one.
* `follows_collectWhile` — a loop is the routine that its rounds are.
* **`Reader free levels expr`** — `expr` reads expressions by their course where `levels` are left.
* **`follows_parseExpr`**, `Reader.follows_prefixBy`, `Reader.follows_infixBy`,
  `Reader.follows_statementBy`, `follows_parseBlock`, **`follows_parseProgram`** — the actions. -/

namespace MonkeySyntax

open Parsing ParseM

variable {α β : Type} {free : Parser → Prop} {routine : Routine} {p q : Parser}

/-- **An action takes the course of a routine.** -/
def Follows (free : Parser → Prop) (routine : Routine) (m : ParseM α) (p : Parser) : Prop :=
  ∃ log, Course free routine p (m.exec p).1.isSome log (m.exec p).2

theorem follows_of_exec {m : ParseM α} {o : Option α} {log : List Event} (hrun : m.exec p = (o, q))
    (h : Course free routine p o.isSome log q) : Follows free routine m p := by
  refine ⟨log, ?_⟩
  rw [hrun]
  exact h

/-- What an action does is all that counts. -/
theorem Follows.congr {m n : ParseM α} (h : Follows free routine n p)
    (hexec : m.exec p = n.exec p) : Follows free routine m p := by
  obtain ⟨log, h⟩ := h
  exact follows_of_exec hexec h

theorem Follows.course {m : ParseM α} {o : Option α} (h : Follows free routine m p)
    (hrun : m.exec p = (o, q)) : ∃ log, Course free routine p o.isSome log q := by
  obtain ⟨log, h⟩ := h
  rw [hrun] at h
  exact ⟨log, h⟩

/-- An action that takes a course leads to a later parser. -/
theorem Follows.later {m : ParseM α} {o : Option α} (h : Follows free routine m p)
    (hrun : m.exec p = (o, q)) : Parser.Later p q := by
  obtain ⟨log, h⟩ := h.course hrun
  exact h.later

/-! ### The parts of a rule -/

section Parts

variable {opener : Nat} {whole : Bool} {parts : List Part}

theorem follows_currentToken_bind {f : Token → ParseM β}
    (h : Follows free routine (f p.current) p) : Follows free routine (currentToken >>= f) p :=
  h.congr (exec_bind_some (exec_currentToken p) f)

theorem follows_get_bind {f : Parser → ParseM β} (h : Follows free routine (f p) p) :
    Follows free routine (get >>= f) p :=
  h.congr (exec_bind_some (exec_get p) f)

theorem follows_map {m : ParseM α} {f : α → β} (h : Follows free routine m p) :
    Follows free routine (f <$> m) p := by
  rcases hrun : m.exec p with ⟨o, q⟩
  obtain ⟨log, h⟩ := h.course hrun
  refine follows_of_exec (o := o.map f) ?_ (by rwa [Option.isSome_map])
  rw [← bind_pure_comp, exec_bind, hrun]
  cases o <;> rfl

/-- The value of a rule is there if it is whole. -/
theorem follows_done {m : ParseM α} {o : Option α} (hrun : m.exec p = (o, p))
    (hwhole : whole = o.isSome) : Follows free (.rest opener whole []) m p := by
  subst hwhole
  exact follows_of_exec hrun .done

theorem follows_pure (a : α) : Follows free (.rest opener true []) (pure a) p :=
  follows_done (exec_pure a p) rfl

theorem follows_getM {o : Option α} (hwhole : whole = o.isSome) :
    Follows free (.rest opener whole []) (o.getM : ParseM α) p := by
  refine follows_done (o := o) ?_ hwhole
  cases o <;> rfl

theorem follows_expect_bind {kind : Kind} (hkind : kind ≠ .eof) {f : Token → ParseM β}
    (hrest : p.peek.kind = kind → Follows free (.rest opener whole parts) (f p.peek) p.advance) :
    Follows free (.rest opener whole (.require kind :: parts)) (expect kind >>= f) p := by
  by_cases hpeek : p.peek.kind = kind
  · obtain ⟨log, h⟩ := hrest hpeek
    refine follows_of_exec ?_ (.required hkind hpeek h)
    rw [exec_bind_some ((exec_expect kind p).trans (if_pos hpeek))]
  · exact follows_of_exec (o := none)
      (exec_bind_none ((exec_expect kind p).trans (if_neg hpeek)) f) (.missing hpeek)

theorem follows_advance_bind {kind : Kind} (hkind : kind ≠ .eof) {f : Unit → ParseM β}
    (hpeek : p.peek.kind = kind)
    (hrest : Follows free (.rest opener whole parts) (f ()) p.advance) :
    Follows free (.rest opener whole (.pass kind :: parts)) (advance >>= f) p := by
  obtain ⟨log, h⟩ := hrest
  refine follows_of_exec ?_ (.passed hkind hpeek h)
  rw [exec_bind_some (exec_advance p)]

/-- An operand and what follows it, whether it could be read or not. -/
theorem follows_operand_bind {spoilt : Bool} {power : Power} {m : ParseM Expr}
    {f : Option Expr → ParseM β} (hfree : free p)
    (hvalue : Follows free (.expression power) m p.advance)
    (hrest : ∀ x q, m.exec p.advance = (x, q) → Parser.Later p q →
      Follows free (.rest opener (whole && (x.isSome || !spoilt)) parts) (f x) q) :
    Follows free (.rest opener whole (.operand spoilt power :: parts))
      (do advance; let x ← attempt m; f x) p := by
  rcases hrun : m.exec p.advance with ⟨x, q⟩
  obtain ⟨log, h⟩ := hvalue.course hrun
  obtain ⟨log', h'⟩ := hrest x q hrun ((Parser.later_advance p).trans h.later)
  refine follows_of_exec ?_ (.operand hfree h h')
  rw [exec_bind_some (exec_advance p), exec_bind_some (exec_attempt m _), hrun]

/-- A block with its brace and what follows it. -/
theorem follows_block_bind {m : ParseM α} {f : α → ParseM β}
    (hblock : p.peek.kind = .openBrace → Follows free .block m p.advance)
    (hrest : ∀ b q, Parser.Later p q → Follows free (.rest opener whole parts) (f b) q) :
    Follows free (.rest opener whole (.block :: parts))
      (do let _ ← expect .openBrace; let b ← m; f b) p := by
  by_cases hpeek : p.peek.kind = .openBrace
  · have hexpect := (exec_expect .openBrace p).trans (if_pos hpeek)
    rcases hrun : m.exec p.advance with ⟨_ | b, q⟩
    · obtain ⟨log, h⟩ := (hblock hpeek).course hrun
      refine follows_of_exec (o := none) ?_ (.blockFails hpeek h)
      rw [exec_bind_some hexpect, exec_bind_none hrun]
    · obtain ⟨log, h⟩ := (hblock hpeek).course hrun
      obtain ⟨log', h'⟩ := hrest b q ((Parser.later_advance p).trans h.later)
      refine follows_of_exec ?_ (.blockRead hpeek h h')
      rw [exec_bind_some hexpect, exec_bind_some hrun]
  · exact follows_of_exec (o := none)
      (exec_bind_none ((exec_expect .openBrace p).trans (if_neg hpeek)) _) (.blockMissing hpeek)

theorem follows_branch {b : Branch} {next : List Part} {m : ParseM α} (hnext : b.parts p = next)
    (h : Follows free (.rest opener whole (next ++ parts)) m p) :
    Follows free (.rest opener whole (.branch b :: parts)) m p := by
  obtain ⟨log, h⟩ := h
  exact ⟨log, .branch (hnext ▸ h)⟩

end Parts

/-! ### Loops -/

/-- The parser follows the rules of the language, and so many expressions may still be opened. -/
structure Parser.OnLevel (levels : Nat) (p : Parser) : Prop where
  /-- The rules are those of the language. -/
  standard : p.Standard
  /-- So many levels are left. -/
  levels_eq : p.levels = levels

theorem Parser.OnLevel.later {levels : Nat} (hp : p.OnLevel levels) (h : Parser.Later p q) :
    q.OnLevel levels :=
  ⟨hp.standard.later h, h.levels_eq.trans hp.levels_eq⟩

theorem Parser.OnLevel.advance {levels : Nat} (hp : p.OnLevel levels) : p.advance.OnLevel levels :=
  hp.later (Parser.later_advance p)

/-- One round of a loop before anything else. -/
theorem exec_collectWhile_bind {condition : Parser → Bool} {item : ParseM α}
    (hitem : Keeps Parser.Later item) (hread : Consuming condition item) (hp : p.Standard)
    (h : condition p = true) (f : List α → ParseM β) :
    (collectWhile condition item >>= f).exec p =
      (do let a ← item; let as ← collectWhile condition item; f (a :: as)).exec p := by
  rw [exec_bind, exec_collectWhile hitem hread hp h]
  rcases hrun : item.exec p with ⟨_ | a, q⟩
  · rw [exec_bind_none hrun, exec_bind_none hrun]
  · rw [exec_bind_some hrun, exec_bind_some hrun, exec_bind, exec_bind]
    rcases (collectWhile condition item).exec q with ⟨_ | as, r⟩ <;> rfl

/-- **A loop takes a course** when each of its rounds does and its end does. The courses may depend on
whether all items so far are as they should be. -/
theorem follows_collectWhile {condition : Parser → Bool} {item : ParseM α} (keep : α → Bool)
    (loop : Bool → Routine) (whole : Bool) {levels : Nat} (hitem : Keeps Parser.Later item)
    (hread : Consuming condition item)
    (hround : ∀ (p : Parser) (whole : Bool) (f : α → ParseM β), p.OnLevel levels →
      condition p = true →
      (∀ a q, item.exec p = (some a, q) → Follows free (loop (whole && keep a)) (f a) q) →
      Follows free (loop whole) (item >>= f) p)
    (hp : p.OnLevel levels) {f : List α → ParseM β}
    (hend : ∀ as q, Parser.Later p q → condition q = false →
      Follows free (loop (whole && as.all keep)) (f as) q) :
    Follows free (loop whole) (collectWhile condition item >>= f) p := by
  induction hn : p.remaining using Nat.strong_induction_on generalizing p whole f with
  | _ n ih =>
    cases hc : condition p with
    | false =>
      have h := hend [] p (Parser.later_refl p) hc
      rw [List.all_nil, Bool.and_true] at h
      exact h.congr (exec_bind_some (exec_collectWhile_false item hc) f)
    | true =>
      refine Follows.congr (hround p whole _ hp hc fun a q hrun => ?_)
        (exec_collectWhile_bind hitem hread hp.standard hc f)
      have hq : Parser.Later p q := by simpa [hrun] using hitem p
      -- the round has read a token, so the rest of the loop is a shorter one
      refine ih q.remaining (hn ▸ hread p hp.standard hc a q hrun) _ (hp.later hq)
        (fun as r hr hstop => ?_) rfl
      have h := hend (a :: as) r (hq.trans hr) hstop
      rwa [List.all_cons, ← Bool.and_assoc] at h

/-! ### Readers -/

/-- **A reader of expressions** takes their course where the given number of levels is left. -/
structure Reader (free : Parser → Prop) (levels : Nat) (expr : Power → ParseM Expr) : Prop where
  /-- What it cannot read it reports. -/
  candid : ∀ power, Candid Given (expr power)
  /-- It takes the course of an expression. -/
  follows : ∀ {p : Parser} (power : Power), p.OnLevel levels →
    Follows free (.expression power) (expr power) p
  /-- A parser is free to move on where it does not stand at the end. -/
  look : ∀ q : Parser, q.current.kind ≠ .eof → free q

section Rules

variable {levels opener : Nat} {expr : Power → ParseM Expr}

section Loops

variable {whole : Bool} {parts : List Part}

/-- What is passed in a loop over tokens of a kind is the token that was seen. -/
theorem peekIs_iff {kind : Kind} : peekIs kind p = true ↔ p.peek.kind = kind := by
  simp [peekIs]

theorem kind_of_peekIs {kind : Kind} (h : peekIs kind p = true) : p.peek.kind = kind := by
  simpa [peekIs] using h

theorem follows_skipSemicolons_bind (hp : p.OnLevel levels) {f : Unit → ParseM β}
    (hf : ∀ q, Parser.Later p q → Follows free (.rest opener whole parts) (f ()) q) :
    Follows free (.rest opener whole (.branch .semicolons :: parts)) (skipSemicolons >>= f) p := by
  have hloop : Follows free (.rest opener whole (.branch .semicolons :: parts))
      (do let _ ← collectWhile (peekIs .semicolon) advance; f ()) p := by
    refine follows_collectWhile (fun _ => true)
      (fun whole => .rest opener whole (.branch .semicolons :: parts)) whole
      candid_advance.keeps consuming_semicolon (fun p whole g hp hc hg => ?_) hp
      fun as q hq hc => ?_
    · refine follows_branch (if_pos hc) (follows_advance_bind (by decide) (kind_of_peekIs hc) ?_)
      simpa using hg () p.advance (exec_advance p)
    · rw [List.all_eq_true.2 fun _ _ => rfl, Bool.and_true]
      exact follows_branch (if_neg (by simp [hc])) (hf q hq)
  refine hloop.congr ?_
  rw [exec_bind, exec_bind, skipSemicolons, exec_bind]
  rcases (collectWhile (peekIs .semicolon) advance).exec p with ⟨_ | as, q⟩ <;> rfl

theorem follows_parameter_bind {f : Identifier → ParseM β}
    (hrest : p.peek.kind = .identifier →
      Follows free (.rest opener whole parts) (f (.ofToken p.peek)) p.advance) :
    Follows free (.rest opener whole (.require .identifier :: parts)) (parameter >>= f) p := by
  refine Follows.congr (n := expect .identifier >>= fun t => f (.ofToken t))
    (follows_expect_bind (by decide) hrest) ?_
  rw [parameter, ← bind_pure_comp, exec_bind, exec_bind, exec_bind]
  rcases (expect .identifier).exec p with ⟨_ | t, q⟩ <;> rfl

/-- The parameters behind the first one. -/
theorem follows_furtherParameters_bind (hp : p.OnLevel levels) {f : List Identifier → ParseM β}
    (hf : ∀ is q, Parser.Later p q → Follows free (.rest opener whole parts) (f is) q) :
    Follows free (.rest opener whole (.branch .furtherParameters :: parts))
      (do
        let is ← collectWhile (peekIs .comma) (do advance; parameter)
        let _ ← expect .closeParen
        f is) p := by
  refine follows_collectWhile (fun _ => true)
    (fun whole => .rest opener whole (.branch .furtherParameters :: parts)) whole
    (candid_advance.bind fun _ => candid_parameter).keeps
    (consuming_peekIs .comma (by decide) candid_parameter.keeps)
    (fun p whole g hp hc hg => ?_) hp fun is q hq hc => ?_
  · refine follows_branch (if_pos hc) ?_
    refine Follows.congr (n := do advance; let i ← parameter; g i)
      (follows_advance_bind (by decide) (kind_of_peekIs hc)
        (follows_parameter_bind fun hpeek => ?_)) ?_
    · have hitem : (do advance; parameter).exec p =
          (some (.ofToken p.advance.peek), p.advance.advance) := by
        rw [exec_bind_some (exec_advance p), parameter, ← bind_pure_comp,
          exec_bind_some ((exec_expect _ _).trans (if_pos hpeek)), exec_pure]
      simpa using hg _ _ hitem
    · rw [bind_assoc]
  · rw [List.all_eq_true.2 fun _ _ => rfl, Bool.and_true]
    refine follows_branch (if_neg (by simp [hc])) (follows_expect_bind (by decide) fun _ => ?_)
    exact hf is q.advance (hq.trans (Parser.later_advance q))

theorem follows_parameters_bind (hp : p.OnLevel levels) {f : List Identifier → ParseM β}
    (hf : ∀ is q, Parser.Later p q → Follows free (.rest opener whole parts) (f is) q) :
    Follows free (.rest opener whole (.branch .parameters :: parts)) (parameters >>= f) p := by
  rw [parameters, bind_assoc]
  refine follows_get_bind ?_
  by_cases hc : peekIs .closeParen p = true
  · rw [if_pos hc, bind_assoc]
    refine follows_branch (if_pos hc) (follows_advance_bind (by decide) (kind_of_peekIs hc) ?_)
    rw [pure_bind]
    exact hf [] p.advance (Parser.later_advance p)
  · rw [if_neg hc]
    simp only [bind_assoc, pure_bind]
    refine follows_branch (if_neg hc) (follows_parameter_bind fun _ => ?_)
    exact follows_furtherParameters_bind hp.advance fun is q hq =>
      hf (_ :: is) q ((Parser.later_advance p).trans hq)

end Loops

/-- A list of values is there when all of them are. -/
theorem isSome_mapM_id (os : List (Option α)) : (os.mapM id).isSome = os.all Option.isSome := by
  induction os with
  | nil => rfl
  | cons o os ih =>
    rw [List.mapM_cons, List.all_cons, ← ih]
    cases o <;> cases os.mapM id <;> rfl

section Reader

variable (h : Reader free levels expr) (hp : p.OnLevel levels)
include h hp

/-! ### First parts and operators -/

theorem Reader.follows_unary (hfree : free p) :
    Follows free (.rest p.index true PrefixRule.unary.parts) (unary expr) p := by
  unfold unary
  exact follows_currentToken_bind <| follows_operand_bind hfree (h.follows _ hp.advance)
    fun x q _ _ => by simpa using follows_pure _

theorem Reader.follows_grouping (hfree : free p) :
    Follows free (.rest p.index true PrefixRule.grouping.parts) (grouping expr) p := by
  unfold grouping
  exact follows_operand_bind hfree (h.follows _ hp.advance) fun x q _ _ =>
    follows_expect_bind (by decide) fun _ => follows_getM (by simp)

/-- An argument without a value spoils the arguments. -/
theorem Reader.follows_argument_bind {whole : Bool} {parts : List Part} (hfree : free p)
    {f : Option Expr → ParseM β}
    (hrest : ∀ x q, (argument expr).exec p = (some x, q) → Parser.Later p q →
      Follows free (.rest opener (whole && x.isSome) parts) (f x) q) :
    Follows free (.rest opener whole (.operand true .lowest :: parts)) (argument expr >>= f) p := by
  rw [argument, bind_assoc]
  refine follows_operand_bind hfree (h.follows _ hp.advance) fun x q hrun hq => ?_
  have hexec : (argument expr).exec p = (some x, q) := by
    rw [argument, exec_bind_some (exec_advance p), exec_attempt, hrun]
  simpa using hrest x q hexec hq

/-- The arguments behind the first one. A broken one spoils all of them. -/
theorem Reader.follows_furtherArguments (first : Option Expr) :
    Follows free (.rest opener first.isSome [.branch .furtherArguments])
      (do
        let others ← collectWhile (peekIs .comma) (do advance; argument expr)
        let _ ← expect .closeParen
        ((first :: others).mapM id).getM) p := by
  have hitem : Candid Given (do advance; argument expr) :=
    candid_advance.bind fun _ => (candid_argument h.candid).imp fun _ _ => trivial
  refine follows_collectWhile Option.isSome
    (fun whole => .rest opener whole [.branch .furtherArguments]) first.isSome hitem.keeps
    (consuming_peekIs .comma (by decide) (candid_argument h.candid).keeps)
    (fun p whole g hp hc hg => ?_) hp fun others q hq hc => ?_
  · refine follows_branch (if_pos hc) ?_
    rw [bind_assoc]
    refine follows_advance_bind (by decide) (kind_of_peekIs hc) ?_
    have hfree : free p.advance :=
      h.look _ (by rw [Parser.current_advance, kind_of_peekIs hc]; decide)
    exact h.follows_argument_bind hp.advance hfree fun x q hrun _ =>
      hg x q (by rw [exec_bind_some (exec_advance p), hrun])
  · refine follows_branch (if_neg (by simp [hc])) (follows_expect_bind (by decide) fun _ => ?_)
    refine follows_getM ?_
    rw [isSome_mapM_id, List.all_cons]

theorem Reader.follows_arguments (hfree : free p) :
    Follows free (.rest opener true [.branch .arguments]) (arguments expr) p := by
  unfold arguments
  refine follows_get_bind ?_
  by_cases hc : peekIs .closeParen p = true
  · rw [if_pos hc]
    exact follows_branch (if_pos hc)
      (follows_advance_bind (by decide) (kind_of_peekIs hc) (follows_pure _))
  · rw [if_neg hc]
    refine follows_branch (if_neg hc) (h.follows_argument_bind hp hfree fun first q _ hq => ?_)
    exact h.follows_furtherArguments (hp.later hq) first

/-- A binary operator or a call, from the token of the operator on. -/
theorem Reader.follows_infixBy (hfree : free p) (rule : InfixRule) (left : Expr) (power : Power) :
    Follows free (.rest p.index true (rule.parts power)) (infixBy expr rule left power) p := by
  cases rule with
  | binary =>
    show Follows free _ (binary expr left power) p
    unfold binary
    exact follows_currentToken_bind <| follows_operand_bind hfree (h.follows _ hp.advance)
      fun right q _ _ => by simpa using follows_pure _
  | call =>
    show Follows free _ (call expr left) p
    unfold call
    refine follows_currentToken_bind ?_
    rw [bind_pure_comp]
    exact follows_map (h.follows_arguments hp hfree)

/-! ### Statements and blocks -/

theorem Reader.follows_binding :
    Follows free (.rest p.index true StatementRule.binding.parts) (binding expr) p := by
  unfold binding
  refine follows_currentToken_bind (follows_expect_bind (by decide) fun _ => ?_)
  refine follows_expect_bind (by decide) fun hassign => ?_
  have hfree : free p.advance.advance :=
    h.look _ (by rw [Parser.current_advance, hassign]; decide)
  refine follows_operand_bind hfree (h.follows _ hp.advance.advance.advance) fun value q _ hq => ?_
  exact follows_skipSemicolons_bind (hp.advance.advance.later hq) fun q _ => by
    simpa using follows_pure _

theorem Reader.follows_returning (hfree : free p) :
    Follows free (.rest p.index true StatementRule.returning.parts) (returning expr) p := by
  unfold returning
  refine follows_currentToken_bind ?_
  refine follows_operand_bind hfree (h.follows _ hp.advance) fun value q _ hq => ?_
  exact follows_skipSemicolons_bind (hp.later hq) fun q _ => by simpa using follows_pure _

theorem Reader.follows_expressionStatement :
    Follows free (.statementBy .expression) (expressionStatement expr) p := by
  rcases hrun : (expr .lowest).exec p with ⟨value, q⟩
  obtain ⟨log, hvalue⟩ := (h.follows .lowest hp).course hrun
  -- the semicolon is passed even where the expression has failed
  have hsemicolon : Follows free (.rest p.index value.isSome StatementRule.expression.parts)
      (do advanceIf (peekIs .semicolon); Statement.expression <$> value.getM) q := by
    by_cases hc : peekIs .semicolon q = true
    · refine Follows.congr (n := do advance; Statement.expression <$> value.getM)
        (follows_branch (if_pos hc) (follows_advance_bind (by decide) (kind_of_peekIs hc) ?_)) ?_
      · exact follows_map (follows_getM rfl)
      · rw [exec_bind_some (exec_advanceIf _ q), if_pos hc, exec_bind_some (exec_advance q)]
    · refine Follows.congr (n := Statement.expression <$> value.getM)
        (follows_branch (if_neg hc) (follows_map (follows_getM rfl))) ?_
      rw [exec_bind_some (exec_advanceIf _ q), if_neg hc]
  obtain ⟨log', hrest⟩ := hsemicolon
  refine follows_of_exec ?_ (.expressionStatement hvalue hrest)
  rw [expressionStatement, exec_bind_some (exec_attempt _ p), hrun]

/-- A statement by any rule. Only a rule that moves on at once needs to be free to do so. -/
theorem Reader.follows_statementBy (rule : StatementRule) (hfree : rule = .returning → free p) :
    Follows free (.statementBy rule) (statementBy expr rule) p := by
  cases rule with
  | binding =>
    obtain ⟨log, hcourse⟩ := h.follows_binding hp
    exact ⟨log, .keyword (by decide) hcourse⟩
  | returning =>
    obtain ⟨log, hcourse⟩ := h.follows_returning hp (hfree rfl)
    exact ⟨log, .keyword (by decide) hcourse⟩
  | expression => exact h.follows_expressionStatement hp

theorem Reader.follows_statement : Follows free .statement (statement expr) p := by
  unfold statement
  refine follows_get_bind ?_
  obtain ⟨log, hcourse⟩ := h.follows_statementBy hp
    ((p.grammar.statementRule? p.current.kind).getD .expression) fun hrule => by
      refine h.look p fun heof => ?_
      rw [hp.standard.statementRule?_eq, heof] at hrule
      exact absurd hrule (by decide)
  exact ⟨log, .statement hcourse⟩

theorem Reader.follows_block (hfree : free p) : Follows free .block (block expr) p := by
  have hitems : Follows free (.items p.index)
      (do
        let items ← collectWhile (!currentIs .closeBrace ·) (blockItem expr)
        pure (Block.mk p.current (items.filterMap id))) p.advance := by
    refine follows_collectWhile (fun _ => true) (fun _ => .items p.index) true
      (candid_blockItem h.candid).keeps (consuming_blockItem h.candid)
      (fun q _ g hq hc hg => ?_) hp.advance fun items q _ hc => ?_
    · have hopen : q.current.kind ≠ .closeBrace := by simpa [currentIs] using hc
      by_cases heof : q.current.kind = .eof
      · refine follows_of_exec (o := none) (exec_bind_none ?_ _) (.unclosed heof)
        rw [blockItem, exec_bind_some (exec_get q), if_pos heof, exec_reject]
      · rcases hrun : (statement expr).exec q with ⟨s, r⟩
        obtain ⟨log, hcourse⟩ := (h.follows_statement hq).course hrun
        have hexec : (blockItem expr).exec q = (some s, r.advance) := by
          rw [blockItem, exec_bind_some (exec_get q), if_neg heof, exec_bind_some (exec_attempt _ q),
            hrun, exec_bind_some (exec_advance r), exec_pure]
        obtain ⟨log', hcourse'⟩ := hg s r.advance hexec
        exact follows_of_exec (exec_bind_some hexec g) (.item hopen heof hcourse hcourse')
    · have hclose : q.current.kind = .closeBrace := by simpa [currentIs] using hc
      exact follows_of_exec (exec_pure _ q) (.closed hclose)
  obtain ⟨log, hcourse⟩ := hitems
  refine follows_of_exec ?_ (.block hfree hcourse)
  rw [block, exec_bind_some (exec_currentToken p), exec_bind_some (exec_advance p)]

/-! ### First parts with blocks -/

theorem Reader.follows_otherwise :
    Follows free (.rest opener true [.branch .otherwise]) (otherwise expr) p := by
  unfold otherwise
  refine follows_get_bind ?_
  by_cases hc : peekIs .kwElse p = true
  · rw [if_pos hc]
    refine follows_branch (if_pos hc) (follows_advance_bind (by decide) (kind_of_peekIs hc) ?_)
    simp only [← bind_pure_comp]
    refine follows_block_bind (fun hpeek => ?_) fun b q _ => follows_pure _
    exact h.follows_block hp.advance.advance
      (h.look _ (by rw [Parser.current_advance, hpeek]; decide))
  · rw [if_neg hc]
    exact follows_branch (if_neg hc) (follows_pure _)

theorem Reader.follows_conditional :
    Follows free (.rest p.index true PrefixRule.conditional.parts) (conditional expr) p := by
  unfold conditional
  refine follows_currentToken_bind (follows_expect_bind (by decide) fun hopen => ?_)
  have hfree : free p.advance := h.look _ (by rw [Parser.current_advance, hopen]; decide)
  refine follows_operand_bind hfree (h.follows _ hp.advance.advance) fun condition q _ hq => ?_
  have hq' : q.OnLevel levels := hp.advance.later hq
  refine follows_expect_bind (by decide) fun _ => ?_
  refine follows_block_bind (fun hbrace => ?_) fun b r hr => ?_
  · exact h.follows_block hq'.advance.advance
      (h.look _ (by rw [Parser.current_advance, hbrace]; decide))
  · rw [bind_pure_comp]
    simpa using follows_map (h.follows_otherwise (hq'.advance.later hr))

theorem Reader.follows_function :
    Follows free (.rest p.index true PrefixRule.function.parts) (function expr) p := by
  unfold function
  refine follows_currentToken_bind (follows_expect_bind (by decide) fun _ => ?_)
  refine follows_parameters_bind hp.advance fun names q hq => ?_
  refine follows_block_bind (fun hbrace => ?_) fun b r _ => follows_pure _
  exact h.follows_block (hp.advance.later hq).advance
    (h.look _ (by rw [Parser.current_advance, hbrace]; decide))

/-- A first part by any rule, if the parser is free to move on from its first token. -/
theorem Reader.follows_prefixBy (hfree : free p) (rule : PrefixRule) :
    Follows free (.first rule) (prefixBy expr rule) p := by
  have hrest {m : ParseM Expr} (hrule : rule ≠ .integer)
      (hm : Follows free (.rest p.index true rule.parts) m p) : Follows free (.first rule) m p := by
    obtain ⟨log, hcourse⟩ := hm
    exact ⟨log, .first (fun heq => absurd heq hrule) hcourse⟩
  cases rule with
  | identifier => exact hrest (by decide) (follows_currentToken_bind (follows_pure _))
  | integer =>
    show Follows free _ integer p
    unfold integer
    refine follows_currentToken_bind ?_
    cases hvalue : integerValue? p.current.text with
    | none => exact follows_of_exec (exec_reject _ _ p) (.invalidInteger hvalue)
    | some value =>
      exact follows_of_exec (exec_pure _ p) (.first (by simp [hvalue]) .done)
  | boolean => exact hrest (by decide) (follows_currentToken_bind (follows_pure _))
  | unary => exact hrest (by decide) (h.follows_unary hp hfree)
  | grouping => exact hrest (by decide) (h.follows_grouping hp hfree)
  | conditional => exact hrest (by decide) (h.follows_conditional hp)
  | function => exact hrest (by decide) (h.follows_function hp)

/-! ### Whole expressions -/

/-- A continuation, by induction on the number of tokens left. -/
theorem Reader.follows_continueExpr (power : Power) (left : Expr) :
    Follows free (.operators power) (continueExpr expr power left) p := by
  induction hn : p.remaining using Nat.strong_induction_on generalizing p left with
  | _ n ih =>
    cases hop : p.operatorAhead? power with
    | none => exact follows_of_exec (exec_continueExpr_none hop left) (.operatorsEnd hop)
    | some op =>
      -- an operator is not the end of the source, so what belongs to it may move on
      have hfree : free p.advance := h.look _ fun heof => by
        rw [Parser.current_advance] at heof
        rw [Parser.operatorAhead?, hp.standard.operator?_eq, heof] at hop
        exact absurd hop (by simp [Grammar.standardOperator?])
      have hinfix := h.follows_infixBy hp.advance hfree op.rule left op.power
      have hround := exec_continueExpr_some h.candid hp.standard hop left
      rcases hrun : (infixBy expr op.rule left op.power).exec p.advance with ⟨_ | x, q⟩
      · obtain ⟨log, hcourse⟩ := hinfix.course hrun
        refine follows_of_exec (o := none) ?_ (.operatorFails hop hcourse)
        rw [hround, exec_bind_none hrun]
      · obtain ⟨log, hcourse⟩ := hinfix.course hrun
        have hless : q.remaining < p.remaining :=
          (((Parser.later_advance p).trans hcourse.later)).remaining_lt
            (by simpa [Nat.succ_le_iff] using hcourse.later.index_le)
            (index_lt_size_of_operator hp.standard hop)
        obtain ⟨log', hmore⟩ := ih q.remaining (hn ▸ hless) (hp.advance.later hcourse.later) x rfl
        refine follows_of_exec ?_ (.operatorRead hop hcourse hmore)
        rw [hround, exec_bind_some hrun]

theorem Reader.follows_climb (power : Power) : Follows free (.climb power) (climb expr power) p := by
  unfold climb
  refine follows_get_bind ?_
  cases hrule : p.grammar.prefixRule? p.current.kind with
  | none => exact follows_of_exec (exec_reject _ _ p) (.noExpression hrule)
  | some rule =>
    have hfree : free p := h.look p fun heof => by
      rw [hp.standard.prefixRule?_eq, heof] at hrule
      exact absurd hrule (by simp [Grammar.standardPrefixRule?])
    have hfirst := h.follows_prefixBy hp hfree rule
    rcases hrun : (prefixBy expr rule).exec p with ⟨_ | left, q⟩
    · obtain ⟨log, hcourse⟩ := hfirst.course hrun
      exact follows_of_exec (exec_bind_none hrun _) (.firstFails hrule hcourse)
    · obtain ⟨log, hcourse⟩ := hfirst.course hrun
      obtain ⟨log', hmore⟩ := h.follows_continueExpr (hp.later hcourse.later) power left
      exact follows_of_exec (exec_bind_some hrun _) (.firstRead hrule hcourse hmore)

end Reader

end Rules

section Standard

variable (hlook : ∀ q : Parser, q.current.kind ≠ .eof → free q)
include hlook

/-- **Expressions take their course**, by induction on the levels that are left. -/
theorem reader_exprWithin (levels : Nat) : Reader free levels (exprWithin levels) := by
  induction levels with
  | zero =>
    refine ⟨candid_exprWithin 0, fun {p} power hp => ?_, hlook⟩
    have hfull : p.grammar.depthLimit ≤ p.depth := Nat.sub_eq_zero_iff_le.1 hp.levels_eq
    exact follows_of_exec (exec_tooDeep p) (.refused hfull)
  | succ levels ih =>
    refine ⟨candid_exprWithin (levels + 1), fun {p} power hp => ?_, hlook⟩
    have hlevels : p.grammar.depthLimit - p.depth = levels + 1 := hp.levels_eq
    have hroom : p.depth < p.grammar.depthLimit := by omega
    -- one level less is left inside, for which the course is known
    have hinside : (p.withDepth (p.depth + 1)).OnLevel levels :=
      ⟨hp.standard.withDepth _, by show p.grammar.depthLimit - (p.depth + 1) = levels; omega⟩
    rcases hrun : (climb (exprWithin levels) power).exec (p.withDepth (p.depth + 1)) with ⟨o, q⟩
    obtain ⟨log, hcourse⟩ := (ih.follows_climb hinside power).course hrun
    refine follows_of_exec ?_ (.opened hroom hcourse)
    rw [exprWithin, exec_nested, if_pos hroom]
    rw [show ({ p with depth := p.depth + 1 } : Parser) = p.withDepth (p.depth + 1) from rfl, hrun]
    rfl

/-- Expressions take their course whatever number of levels is left. -/
theorem reader_parseExpr (levels : Nat) : Reader free levels parseExpr := by
  refine ⟨candid_parseExpr, fun {p} power hp => follows_get_bind ?_, hlook⟩
  rw [hp.levels_eq]
  exact (reader_exprWithin hlook levels).follows power hp

variable (hp : p.Standard)
include hp

theorem follows_parseExpr (power : Power) :
    Follows free (.expression power) (parseExpr power) p :=
  (reader_parseExpr hlook p.levels).follows power ⟨hp, rfl⟩

theorem follows_parseStatement : Follows free .statement parseStatement p :=
  (reader_parseExpr hlook p.levels).follows_statement ⟨hp, rfl⟩

theorem follows_parseBlock (hfree : free p) : Follows free .block parseBlock p :=
  (reader_parseExpr hlook p.levels).follows_block ⟨hp, rfl⟩ hfree

/-- **Programs take their course**, one statement after another. -/
theorem follows_parseProgram : Follows free .program parseProgram p := by
  refine follows_collectWhile (fun _ => true) (fun _ => .program) true
    candid_programItem.keeps consuming_programItem
    (fun q _ g hq hc hg => ?_) ⟨hp, rfl⟩ fun items q _ hc => ?_
  · have hinside : q.current.kind ≠ .eof := by simpa [currentIs] using hc
    rcases hrun : parseStatement.exec q with ⟨s, r⟩
    obtain ⟨log, hcourse⟩ :=
      ((reader_parseExpr hlook p.levels).follows_statement hq).course hrun
    have hexec : programItem.exec q = (some s, ((Step.restart s.isSome).apply r).advance) := by
      rw [exec_programItem, hrun]
      rfl
    obtain ⟨log', hmore⟩ := hg s _ hexec
    exact follows_of_exec (exec_bind_some hexec g) (.programItem hinside hcourse hmore)
  · have hend : q.current.kind = .eof := by simpa [currentIs] using hc
    exact follows_of_exec (exec_pure _ q) (.programEnd hend)

end Standard

end MonkeySyntax
