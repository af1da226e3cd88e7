import Mathlib.Data.Nat.Basic
import Mathlib.Tactic.Common
import MonkeySyntax.Parsing.Program

/-! # What every parsing action keeps

All rules are put together from a few steps: one token forward, a diagnostic of one of five forms,
and the opening and closing of an expression. A relation between parsers that holds along each of
these steps therefore holds between the parser before and the parser behind any action.

* **`Parser.StepRelation R`** — the list of the steps, each with the guard under which it is taken.
* **`ParseM.Keeps R m`** — the action `m` leads from a parser only to parsers that `R` relates to it.
* **`keeps_exprWithin`**, `keeps_parseExpr`, `keeps_statement`, `keeps_block`, `keeps_parseProgram` —
  every action keeps every such relation. -/

namespace MonkeySyntax

namespace Parser

/-- The parser with another number of open expressions. -/
def withDepth (p : Parser) (depth : Nat) : Parser :=
  { p with depth }

@[simp] theorem withDepth_tokens (p : Parser) (n : Nat) : (p.withDepth n).tokens = p.tokens := rfl

@[simp] theorem withDepth_eof (p : Parser) (n : Nat) : (p.withDepth n).eof = p.eof := rfl

@[simp] theorem withDepth_index (p : Parser) (n : Nat) : (p.withDepth n).index = p.index := rfl

@[simp] theorem withDepth_diagnostics (p : Parser) (n : Nat) :
    (p.withDepth n).diagnostics = p.diagnostics := rfl

@[simp] theorem withDepth_depth (p : Parser) (n : Nat) : (p.withDepth n).depth = n := rfl

@[simp] theorem withDepth_grammar (p : Parser) (n : Nat) : (p.withDepth n).grammar = p.grammar := rfl

@[simp] theorem withDepth_withDepth (p : Parser) (m n : Nat) :
    (p.withDepth m).withDepth n = p.withDepth n := rfl

@[simp] theorem withDepth_self (p : Parser) : p.withDepth p.depth = p := rfl

/-- The tokens that are looked at do not depend on how many expressions are open. -/
@[simp] theorem current_withDepth (p : Parser) (n : Nat) : (p.withDepth n).current = p.current := rfl

@[simp] theorem peek_withDepth (p : Parser) (n : Nat) : (p.withDepth n).peek = p.peek := rfl

/-- Moving on and opening an expression may change places. -/
theorem advance_withDepth (p : Parser) (n : Nat) :
    (p.withDepth n).advance = p.advance.withDepth n := by
  show Parser.traceText _ _ = (Parser.traceText _ _).withDepth n
  unfold traceText
  rw [peek_withDepth]
  split <;> rfl

/-- **The steps of all actions.** A relation holds along them when it is reflexive and transitive
and relates a parser to the one behind each single step. -/
structure StepRelation (R : Parser → Parser → Prop) : Prop where
  /-- Nothing happens. -/
  refl : ∀ p, R p p
  /-- One step follows another. -/
  trans : ∀ {p q r}, R p q → R q r → R p r
  /-- One token forward. -/
  advance : ∀ p, R p p.advance
  /-- The next token is not of the required kind. -/
  missing : ∀ p kind, p.peek.kind ≠ kind → R p (p.report (p.unexpected kind p.peek) p.peek)
  /-- The source ends inside a block. -/
  unclosed : ∀ p, p.current.kind = .eof →
    R p (p.report (p.unexpected .closeBrace p.current) p.current)
  /-- The current token starts no expression. -/
  noExpression : ∀ p, p.grammar.prefixRule? p.current.kind = none →
    R p (p.report (.noExpression p.current.kind) p.current)
  /-- The current token is read as a number and has no value. -/
  invalidInteger : ∀ p, p.grammar.prefixRule? p.current.kind = some .integer →
    integerValue? p.current.text = none → R p (p.report (.invalidInteger p.current.text) p.current)
  /-- No further expression may be opened. -/
  tooDeep : ∀ p, R p (p.report (.nestingTooDeep p.grammar.depthLimit) p.current)
  /-- What happens inside an expression happens between its opening and its closing. -/
  nested : ∀ p q, p.depth < p.grammar.depthLimit → R (p.withDepth (p.depth + 1)) q →
    R p (q.withDepth (q.depth - 1))

end Parser

namespace ParseM

open Parsing

variable {α β : Type} {R : Parser → Parser → Prop}

/-- An action **keeps** a relation when every parser is related to the one behind the action. -/
def Keeps (R : Parser → Parser → Prop) (m : ParseM α) : Prop :=
  ∀ p, R p (m.exec p).2

/-- A sequence of actions keeps what each of them keeps. -/
theorem Keeps.bind (hR : Parser.StepRelation R) {m : ParseM α} {f : α → ParseM β} (hm : Keeps R m)
    (hf : ∀ a, Keeps R (f a)) : Keeps R (m >>= f) := by
  intro p
  have h := hm p
  rcases hrun : m.exec p with ⟨_ | a, q⟩
  · rw [exec_bind_none hrun]
    rwa [hrun] at h
  · rw [exec_bind_some hrun]
    rw [hrun] at h
    exact hR.trans h (hf a q)

/-- An action that looks at the parser first may use what it sees there. -/
theorem Keeps.get_bind {f : Parser → ParseM β} (hf : ∀ p, R p ((f p).exec p).2) :
    Keeps R (get >>= f) := by
  intro p
  rw [exec_bind, exec_get]
  exact hf p

theorem keeps_pure (hR : Parser.StepRelation R) (a : α) : Keeps R (pure a) :=
  fun p => hR.refl p

theorem keeps_getM (hR : Parser.StepRelation R) (o : Option α) : Keeps R (o.getM : ParseM α) := by
  cases o with
  | none => exact fun p => hR.refl p
  | some a => exact fun p => hR.refl p

theorem keeps_advance (hR : Parser.StepRelation R) : Keeps R advance :=
  fun p => hR.advance p

theorem keeps_currentToken (hR : Parser.StepRelation R) : Keeps R currentToken :=
  fun p => hR.refl p

theorem keeps_advanceIf (hR : Parser.StepRelation R) (condition : Parser → Bool) :
    Keeps R (advanceIf condition) := by
  intro p
  rw [exec_advanceIf]
  split
  · exact hR.advance p
  · exact hR.refl p

/-- Taking a failure for an answer keeps what the action keeps. -/
theorem Keeps.attempt {m : ParseM α} (hm : Keeps R m) : Keeps R (attempt m) :=
  fun p => hm p

theorem Keeps.map (hR : Parser.StepRelation R) {m : ParseM α} (hm : Keeps R m) (f : α → β) :
    Keeps R (f <$> m) := by
  rw [← bind_pure_comp]
  exact hm.bind hR fun a => keeps_pure hR (f a)

theorem keeps_expect (hR : Parser.StepRelation R) (kind : Kind) : Keeps R (expect kind) := by
  intro p
  rw [exec_expect]
  split
  · exact hR.advance p
  · next h => exact hR.missing p kind h

theorem Keeps.nested (hR : Parser.StepRelation R) {m : ParseM α} (hm : Keeps R m) :
    Keeps R (nested m) := by
  intro p
  rw [exec_nested]
  split
  · next h => exact hR.nested p _ h (hm (p.withDepth (p.depth + 1)))
  · exact hR.tooDeep p

theorem Keeps.collectWithin (hR : Parser.StepRelation R) {condition : Parser → Bool}
    {item : ParseM α} (hitem : Keeps R item) (n : Nat) :
    Keeps R (collectWithin condition item n) := by
  induction n with
  | zero => exact fun p => hR.refl p
  | succ n ih =>
    refine Keeps.get_bind fun p => ?_
    split
    · exact (hitem.bind hR fun a => ih.bind hR fun rest => keeps_pure hR _) p
    · exact hR.refl p

theorem Keeps.collectWhile (hR : Parser.StepRelation R) {condition : Parser → Bool}
    {item : ParseM α} (hitem : Keeps R item) : Keeps R (collectWhile condition item) :=
  Keeps.get_bind fun p => hitem.collectWithin hR _ p

theorem keeps_skipSemicolons (hR : Parser.StepRelation R) : Keeps R skipSemicolons :=
  ((keeps_advance hR).collectWhile hR).bind hR fun _ => keeps_pure hR ()

end ParseM

namespace Parsing

open ParseM

variable {R : Parser → Parser → Prop} {expr : Power → ParseM Expr}

/-! ### Statements and blocks -/

section Statements

variable (hR : Parser.StepRelation R) (hexpr : ∀ power, Keeps R (expr power))
include hR hexpr

theorem keeps_binding : Keeps R (binding expr) :=
  (keeps_currentToken hR).bind hR fun _ => (keeps_expect hR _).bind hR fun _ =>
    (keeps_expect hR _).bind hR fun _ => (keeps_advance hR).bind hR fun _ =>
    (hexpr _).attempt.bind hR fun _ => (keeps_skipSemicolons hR).bind hR fun _ => keeps_pure hR _

theorem keeps_returning : Keeps R (returning expr) :=
  (keeps_currentToken hR).bind hR fun _ => (keeps_advance hR).bind hR fun _ =>
    (hexpr _).attempt.bind hR fun _ => (keeps_skipSemicolons hR).bind hR fun _ => keeps_pure hR _

theorem keeps_expressionStatement : Keeps R (expressionStatement expr) :=
  (hexpr _).attempt.bind hR fun _ => (keeps_advanceIf hR _).bind hR fun _ =>
    (keeps_getM hR _).map hR _

/-- Statements keep what expressions keep. -/
theorem keeps_statement : Keeps R (statement expr) := by
  refine Keeps.get_bind fun p => ?_
  cases (p.grammar.statementRule? p.current.kind).getD .expression with
  | binding => exact keeps_binding hR hexpr p
  | returning => exact keeps_returning hR hexpr p
  | expression => exact keeps_expressionStatement hR hexpr p

theorem keeps_blockItem : Keeps R (blockItem expr) := by
  refine Keeps.get_bind fun p => ?_
  split
  · next h => exact hR.unclosed p h
  · exact ((keeps_statement hR hexpr).attempt.bind hR fun _ => (keeps_advance hR).bind hR fun _ =>
      keeps_pure hR _) p

/-- Blocks keep what expressions keep. -/
theorem keeps_block : Keeps R (block expr) :=
  (keeps_currentToken hR).bind hR fun _ => (keeps_advance hR).bind hR fun _ =>
    ((keeps_blockItem hR hexpr).collectWhile hR).bind hR fun _ => keeps_pure hR _

/-! ### Expressions -/

theorem keeps_unary : Keeps R (unary expr) :=
  (keeps_currentToken hR).bind hR fun _ => (keeps_advance hR).bind hR fun _ =>
    (hexpr _).attempt.bind hR fun _ => keeps_pure hR _

theorem keeps_grouping : Keeps R (grouping expr) :=
  (keeps_advance hR).bind hR fun _ => (hexpr _).attempt.bind hR fun _ =>
    (keeps_expect hR _).bind hR fun _ => keeps_getM hR _

theorem keeps_otherwise : Keeps R (otherwise expr) := by
  refine Keeps.get_bind fun p => ?_
  split
  · exact ((keeps_advance hR).bind hR fun _ => (keeps_expect hR _).bind hR fun _ =>
      (keeps_block hR hexpr).map hR _) p
  · exact hR.refl p

theorem keeps_conditional : Keeps R (conditional expr) :=
  (keeps_currentToken hR).bind hR fun _ => (keeps_expect hR _).bind hR fun _ =>
    (keeps_advance hR).bind hR fun _ => (hexpr _).attempt.bind hR fun _ =>
    (keeps_expect hR _).bind hR fun _ => (keeps_expect hR _).bind hR fun _ =>
    (keeps_block hR hexpr).bind hR fun _ => (keeps_otherwise hR hexpr).bind hR fun _ =>
    keeps_pure hR _

omit hexpr in
theorem keeps_parameter : Keeps R parameter :=
  (keeps_expect hR _).map hR _

omit hexpr in
theorem keeps_parameters : Keeps R parameters := by
  refine Keeps.get_bind fun p => ?_
  split
  · exact ((keeps_advance hR).bind hR fun _ => keeps_pure hR _) p
  · exact ((keeps_parameter hR).bind hR fun _ =>
      (((keeps_advance hR).bind hR fun _ => keeps_parameter hR).collectWhile hR).bind hR fun _ =>
      (keeps_expect hR _).bind hR fun _ => keeps_pure hR _) p

theorem keeps_function : Keeps R (function expr) :=
  (keeps_currentToken hR).bind hR fun _ => (keeps_expect hR _).bind hR fun _ =>
    (keeps_parameters hR).bind hR fun _ => (keeps_expect hR _).bind hR fun _ =>
    (keeps_block hR hexpr).bind hR fun _ => keeps_pure hR _

/-- A first part keeps what expressions keep. The rule has to be the one of the current token: only
then may a missing value of a number be reported. -/
theorem keeps_prefixBy {p : Parser} {rule : PrefixRule}
    (h : p.grammar.prefixRule? p.current.kind = some rule) : R p ((prefixBy expr rule).exec p).2 := by
  cases rule with
  | identifier => exact hR.refl p
  | integer =>
    show R p (integer.exec p).2
    rw [integer, exec_bind_some (exec_currentToken p)]
    cases hv : integerValue? p.current.text with
    | none => exact hR.invalidInteger p h hv
    | some value => exact hR.refl p
  | boolean => exact hR.refl p
  | unary => exact keeps_unary hR hexpr p
  | grouping => exact keeps_grouping hR hexpr p
  | conditional => exact keeps_conditional hR hexpr p
  | function => exact keeps_function hR hexpr p

theorem keeps_binary (left : Expr) (power : Power) : Keeps R (binary expr left power) :=
  (keeps_currentToken hR).bind hR fun _ => (keeps_advance hR).bind hR fun _ =>
    (hexpr _).attempt.bind hR fun _ => keeps_pure hR _

theorem keeps_argument : Keeps R (argument expr) :=
  (keeps_advance hR).bind hR fun _ => (hexpr _).attempt

theorem keeps_arguments : Keeps R (arguments expr) := by
  refine Keeps.get_bind fun p => ?_
  split
  · exact ((keeps_advance hR).bind hR fun _ => keeps_pure hR _) p
  · exact ((keeps_argument hR hexpr).bind hR fun _ =>
      (((keeps_advance hR).bind hR fun _ => keeps_argument hR hexpr).collectWhile hR).bind hR
        fun _ => (keeps_expect hR _).bind hR fun _ => keeps_getM hR _) p

theorem keeps_call (callee : Expr) : Keeps R (call expr callee) :=
  (keeps_currentToken hR).bind hR fun _ => (keeps_arguments hR hexpr).bind hR fun _ =>
    keeps_pure hR _

theorem keeps_infixBy (rule : InfixRule) (left : Expr) (power : Power) :
    Keeps R (infixBy expr rule left power) := by
  cases rule with
  | binary => exact keeps_binary hR hexpr left power
  | call => exact keeps_call hR hexpr left

theorem keeps_continueWithin (power : Power) (n : Nat) (left : Expr) :
    Keeps R (continueWithin expr power n left) := by
  induction n generalizing left with
  | zero => exact keeps_pure hR left
  | succ n ih =>
    refine Keeps.get_bind fun p => ?_
    split
    · exact hR.refl p
    · exact ((keeps_advance hR).bind hR fun _ => (keeps_infixBy hR hexpr _ _ _).bind hR fun x =>
        ih x) p

theorem keeps_climb (power : Power) : Keeps R (climb expr power) := by
  refine Keeps.get_bind fun p => ?_
  split
  · next h => exact hR.noExpression p h
  · next rule h =>
    -- the rule of the first part is known only at `p`, so the sequence is opened by hand
    have hleft := keeps_prefixBy hR hexpr h
    rcases hrun : (prefixBy expr rule).exec p with ⟨_ | left, q⟩
    · rw [exec_bind_none hrun]
      rwa [hrun] at hleft
    · rw [exec_bind_some hrun]
      rw [hrun] at hleft
      exact hR.trans hleft (keeps_continueWithin hR hexpr power q.remaining left q)

end Statements

/-- **Expressions keep every relation of steps**, by induction on the levels that are left. -/
theorem keeps_exprWithin (hR : Parser.StepRelation R) (levels : Nat) (power : Power) :
    Keeps R (exprWithin levels power) := by
  induction levels generalizing power with
  | zero => exact fun p => hR.tooDeep p
  | succ levels ih => exact (keeps_climb hR ih power).nested hR

theorem keeps_parseExpr (hR : Parser.StepRelation R) (power : Power) : Keeps R (parseExpr power) :=
  Keeps.get_bind fun p => keeps_exprWithin hR p.levels power p

theorem keeps_parseStatement (hR : Parser.StepRelation R) : Keeps R parseStatement :=
  keeps_statement hR (keeps_parseExpr hR)

/-- A program keeps such a relation if the trace may start anew. -/
theorem keeps_programItem (hR : Parser.StepRelation R) (hclear : ∀ p : Parser, R p p.clearTrace) :
    Keeps R programItem := by
  have hmodify (result : Option Statement) :
      Keeps R (modify fun p => if result.isSome then p.clearTrace else p) := by
    intro p
    rw [exec_modify]
    split
    · exact hclear p
    · exact hR.refl p
  exact (keeps_parseStatement hR).attempt.bind hR fun result => (hmodify result).bind hR fun _ =>
    (keeps_advance hR).bind hR fun _ => keeps_pure hR result

theorem keeps_parseProgram (hR : Parser.StepRelation R) (hclear : ∀ p : Parser, R p p.clearTrace) :
    Keeps R parseProgram :=
  ((keeps_programItem hR hclear).collectWhile hR).bind hR fun _ => keeps_pure hR _

end Parsing

end MonkeySyntax
