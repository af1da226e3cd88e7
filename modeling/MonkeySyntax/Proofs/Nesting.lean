import MonkeySyntax.Proofs.Parsing.CourseRule
import MonkeySyntax.Proofs.Parsing.Depth
import MonkeySyntax.Proofs.Parsing.Levels
import MonkeySyntax.Proofs.Parsing.Progress

/-! # Nesting is counted and limited

Whatever the parser is asked to do, and whether it succeeds or not, it closes every expression that it
opens, and nowhere on the way are more than 256 of them open.

* `Activity`: what the parser can be asked to do; `Activity.run` does it.
* `within_parseAs` — the statements of a program stay within 256 levels.
* **`nesting_respected`** — the count of open expressions along every activity, and the depth of every
  program. -/

namespace MonkeySyntax

open Parsing ParseM

/-- **What the parser can be asked to do** at its current token. -/
inductive Activity where
  /-- Read an expression. -/
  | expression (power : Power)
  /-- Read a first part by a rule. -/
  | first (rule : PrefixRule)
  /-- Read what continues an expression by a rule. -/
  | continuation (rule : InfixRule) (left : Expr) (power : Power)
  /-- Read a statement. -/
  | statement
  /-- Read a statement by a rule. -/
  | statementBy (rule : StatementRule)
  /-- Read a block. -/
  | block
  /-- Read a program. -/
  | program

/-- Whether an action gives a value, and the parser behind it. -/
def ParseM.outcome {α : Type} (m : ParseM α) (p : Parser) : Bool × Parser :=
  ((m.exec p).1.isSome, (m.exec p).2)

namespace Activity

/-- Does what the parser is asked to do. -/
def run : Activity → Parser → Bool × Parser
  | expression power => (parseExpr power).outcome
  | first rule => (prefixBy parseExpr rule).outcome
  | continuation rule left power => (infixBy parseExpr rule left power).outcome
  | statement => parseStatement.outcome
  | statementBy rule => (Parsing.statementBy parseExpr rule).outcome
  | block => parseBlock.outcome
  | program => parseProgram.outcome

/-- The routine that an activity is. -/
def routine (p : Parser) : Activity → Routine
  | expression power => .expression power
  | first rule => .first rule
  | continuation rule _ power => .rest p.index true (rule.parts power)
  | statement => .statement
  | statementBy rule => .statementBy rule
  | block => .block
  | program => .program

/-- Every activity takes the course of its routine, if it may move on wherever it stands. -/
theorem exists_course (a : Activity) {p : Parser} (hp : p.Standard) :
    ∃ log, Course (fun _ => True) (a.routine p) p (a.run p).1 log (a.run p).2 := by
  have hlook : ∀ q : Parser, q.current.kind ≠ .eof → True := fun _ _ => trivial
  have hreader := reader_parseExpr hlook p.levels
  cases a with
  | expression power => exact follows_parseExpr hlook hp power
  | first rule => exact hreader.follows_prefixBy ⟨hp, rfl⟩ trivial rule
  | continuation rule left power => exact hreader.follows_infixBy ⟨hp, rfl⟩ trivial rule left power
  | statement => exact follows_parseStatement hlook hp
  | statementBy rule => exact hreader.follows_statementBy ⟨hp, rfl⟩ rule fun _ => trivial
  | block => exact follows_parseBlock hlook hp trivial
  | program => exact follows_parseProgram hlook hp

end Activity

/-- An expression is opened or refused before anything else. -/
theorem Course.head_of_expression {free : Parser → Prop} {power : Power} {p q : Parser} {ok : Bool}
    {log : List Event} (h : Course free (.expression power) p ok log q) :
    ∃ step rest, log = ⟨p, step⟩ :: rest ∧ (step = .enter ∨ step = .refuse) := by
  cases h with
  | refused => exact ⟨.refuse, [], rfl, .inr rfl⟩
  | opened => exact ⟨.enter, _, rfl, .inl rfl⟩

/-- **No way down in a program has more than 255 steps inside.** -/
theorem within_parseAs {file source : String} {s : Statement}
    (hs : s ∈ (parseAs file source).program.statements) : s.Within 256 := by
  have hgives : Gives 256 (fun program => ∀ s ∈ program.statements, s.Within 256) parseProgram :=
    gives_parseProgram
  have hprogram := (hgives (.ofTokens .standard (tokenize source file))
    (by rw [Parser.grammar_ofTokens]; rfl)).2
  rcases hrun : parseProgram.exec (.ofTokens .standard (tokenize source file)) with
    ⟨_ | program, q⟩
  · rw [parseAs_of_exec hrun] at hs
    exact absurd hs List.not_mem_nil
  · rw [parseAs_of_exec hrun] at hs
    exact hprogram program (by rw [hrun]) s hs

/-- **The count of open expressions is balanced and bounded.** Every activity, from any parser with no
more than 256 open expressions, leaves as many open as there were. It has one course, whose events
make up what is reported; at each of them no more than 256 expressions are open, none is closed where
none is open, and the limit is reported exactly where an expression is to be opened and 256 are open
already. So in the program of any source no way down has more than 255 steps inside. -/
theorem nesting_respected :
    (∀ (a : Activity) (p : Parser), p.grammar = .standard → p.eof.kind = .eof → p.depth ≤ 256 →
      (a.run p).2.depth = p.depth ∧
      ∃ log, Course (fun _ => True) (a.routine p) p (a.run p).1 log (a.run p).2 ∧
        (∀ ok log' q, Course (fun _ => True) (a.routine p) p ok log' q → log' = log) ∧
        (a.run p).2.diagnostics.toList =
          p.diagnostics.toList ++ (log.filterMap Event.note?).map Prod.snd ∧
        (∀ e ∈ log, e.Guarded 256) ∧
        (∀ power, a = .expression power →
          ∃ step rest, log = ⟨p, step⟩ :: rest ∧ (step = .enter ∨ step = .refuse))) ∧
    (∀ (file source : String) (s : Statement) (x y : Expr) (k : Nat),
      s ∈ (parseAs file source).program.statements → s.expr? = some x → x.Descends k y →
        k ≤ 255) := by
  constructor
  · intro a p hgrammar heof hdepth
    have hp : p.Standard :=
      ⟨heof, by rw [hgrammar]; rfl, by rw [hgrammar]; rfl, by rw [hgrammar]; rfl⟩
    obtain ⟨log, hcourse⟩ := a.exists_course hp
    refine ⟨hcourse.depth_eq, log, hcourse, fun ok log' q h => ?_, hcourse.diagnostics,
      hcourse.guarded ⟨by rw [hgrammar]; rfl, hdepth⟩, ?_⟩
    · exact (hcourse.unique h).2.1
    · rintro power rfl
      exact hcourse.head_of_expression
  · intro file source s x y k hs hx hdescends
    exact Nat.le_of_lt_succ (within_parseAs hs x hx k y hdescends)

/-- The negation of a name is read with no expression left open, and the name is one step inside. -/
theorem nesting_respected_negation :
    (Activity.program.run (.ofTokens .standard (tokenize "-a" ""))).2.depth = 0 ∧
      ∃ s x y, s ∈ (parseAs "" "-a").program.statements ∧ s.expr? = some x ∧ x.Descends 1 y ∧
        1 ≤ 255 := by
  have hfresh := Parser.endsAt_tokenize 256 "" "-a"
  have hdepth := Parser.depth_ofTokens .standard (tokenize "-a" "")
  obtain ⟨hbalanced, hlimited⟩ := nesting_respected
  obtain ⟨heq, -⟩ := hbalanced .program (.ofTokens .standard (tokenize "-a" ""))
    (Parser.grammar_ofTokens _ _) hfresh.standard.eof_kind (by rw [hdepth]; decide)
  refine ⟨heq.trans hdepth, ?_⟩
  let minus := Token.ofText "" 0 .minus ['-']
  let name := Token.ofText "" 1 .identifier ['a']
  let y := Expr.identifier (.ofToken name)
  let x := Expr.prefixOp minus "-" (some y)
  have hy : Derives (.expr .unary y) [name] 1 := .expr (.identifier rfl) (.inl (by decide))
  have hx : Derives (.expr .lowest x) [minus, name] 2 :=
    .expr (.prefixOp (.inr rfl) hy) (.inl (by decide))
  have hs : Derives (.statement (.expression x)) ([minus, name] ++ []) 2 :=
    .expression hx (by decide) (by decide)
  have htokens : (tokenize "-a" "").dropLast = ([minus, name] ++ []) ++ [] := by decide +kernel
  obtain ⟨-, hprogram⟩ := (parseAs_accepts "" "-a" ⟨[.expression x]⟩).2
    ⟨2, by decide, by rw [htokens]; exact .statements hs .noStatements (.inr (by simp))⟩
  have hmem : .expression x ∈ (parseAs "" "-a").program.statements := by
    rw [hprogram]
    exact List.mem_singleton_self _
  have hway : x.Descends 1 y := .step .operand .here
  exact ⟨.expression x, x, y, hmem, rfl, hway, hlimited "" "-a" _ x y 1 hmem rfl hway⟩

end MonkeySyntax
