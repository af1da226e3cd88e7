import MonkeySyntax.Proofs.Parsing.Rounds
import MonkeySyntax.Proofs.Token.CursorRun

/-! # Runs of a parser

A parser may be driven by hand, one operation after the other. Whatever the operations are, it looks at
two neighbouring tokens of its source, never goes back, takes no diagnostic back and has in its trace
what was read since the last statement of a program was completed.

* `Operation` — what a parser may be asked to do; `Operation.perform` does it.
* `Operation.clearPoint` — where the trace begins behind an operation.
* **`Parser.Follows token clear p`** — the parser looks at two of these tokens, and its trace begins at
  the token with the number `clear`.
* **`operations_trace`** — every parser does so behind any operations, and so every unexpected token of
  a source is reported with what was read since the last completed statement. -/

namespace MonkeySyntax

open Parsing ParseM

/-- **What a parser may be asked to do.** -/
inductive Operation where
  /-- One token forward. -/
  | advance
  /-- One token forward, if it is of the given kind. -/
  | expect (kind : Kind)
  /-- An expression whose operators bind tighter than the given power. -/
  | expression (power : Power)
  /-- A statement. -/
  | statement
  /-- A block. -/
  | block
  /-- All statements up to the end of the source. -/
  | program
  deriving DecidableEq, Repr

namespace Operation

/-- The parser behind an operation, whether or not that gives a value. -/
def perform : Operation → Parser → Parser
  | advance, p => (Parsing.advance.exec p).2
  | expect kind, p => ((Parsing.expect kind).exec p).2
  | expression power, p => ((parseExpr power).exec p).2
  | statement, p => (parseStatement.exec p).2
  | block, p => (parseBlock.exec p).2
  | program, p => (parseProgram.exec p).2

/-- **Where the trace begins behind an operation**: only a program may let it begin anew, behind the
last of its statements that is completed. -/
def clearPoint (clear : Nat) (p : Parser) : Operation → Nat
  | program => Parser.clearPoint clear p.rounds
  | _ => clear

/-- The parser behind some operations. -/
def performAll : List Operation → Parser → Parser
  | [], p => p
  | op :: ops, p => performAll ops (op.perform p)

/-- Where the trace begins behind some operations. -/
def clearPointAll (clear : Nat) (p : Parser) : List Operation → Nat
  | [] => clear
  | op :: ops => clearPointAll (op.clearPoint clear p) (op.perform p) ops

theorem performAll_append (ops more : List Operation) (p : Parser) :
    performAll (ops ++ more) p = performAll more (performAll ops p) := by
  induction ops generalizing p with
  | nil => rfl
  | cons op ops ih => exact ih (op.perform p)

/-! ### One operation -/

/-- Every operation leads to a later parser. -/
theorem later_perform (op : Operation) (p : Parser) : Parser.Later p (op.perform p) := by
  cases op with
  | advance => exact keeps_advance Parser.stepRelation_later p
  | expect kind => exact keeps_expect Parser.stepRelation_later kind p
  | expression power => exact keeps_parseExpr Parser.stepRelation_later power p
  | statement => exact keeps_parseStatement Parser.stepRelation_later p
  | block => exact keeps_block Parser.stepRelation_later (keeps_parseExpr Parser.stepRelation_later) p
  | program => exact keeps_parseProgram Parser.stepRelation_later Parser.later_clearTrace p

/-- **Every operation keeps the beginning of the trace**, but for a program. -/
theorem tracedFrom_perform {clear : Nat} {p : Parser} (h : p.TracedFrom clear) (op : Operation) :
    (op.perform p).TracedFrom (op.clearPoint clear p) := by
  have hR := Parser.stepRelation_traces
  cases op with
  | advance => exact h.traces (keeps_advance hR p)
  | expect kind => exact h.traces (keeps_expect hR kind p)
  | expression power => exact h.traces (keeps_parseExpr hR power p)
  | statement => exact h.traces (keeps_parseStatement hR p)
  | block => exact h.traces (keeps_block hR (keeps_parseExpr hR) p)
  | program =>
    obtain ⟨q, hrounds, hprogram⟩ := p.exec_parseProgram
    have hq : program.perform p = q := congrArg Prod.snd hprogram
    rw [hq]
    exact h.rounds hrounds

/-! ### Many operations -/

theorem later_performAll (ops : List Operation) (p : Parser) : Parser.Later p (performAll ops p) := by
  induction ops generalizing p with
  | nil => exact Parser.later_refl p
  | cons op ops ih => exact (op.later_perform p).trans (ih (op.perform p))

/-- **Behind any operations the trace begins at their clear point**, by induction on them. -/
theorem tracedFrom_performAll {clear : Nat} {p : Parser} (h : p.TracedFrom clear)
    (ops : List Operation) : (performAll ops p).TracedFrom (clearPointAll clear p ops) := by
  induction ops generalizing clear p with
  | nil => exact h
  | cons op ops ih => exact ih (tracedFrom_perform h op)

end Operation

/-! ### Whole sources -/

namespace Parser

/-- A parser **at the beginning of a source**. -/
def ofSource (file source : String) : Parser :=
  ofTokens .standard (tokenize source file)

/-- **The parser looks at two neighbouring tokens**, and its trace goes from the token with the number
`clear` up to the first of them. -/
structure Follows (token : Nat → Token) (clear : Nat) (p : Parser) : Prop where
  /-- The current token has the number of the parser. -/
  current_eq : p.current = token p.index
  /-- The token after it has the next number. -/
  peek_eq : p.peek = token (p.index + 1)
  /-- The trace begins no later than there. -/
  le_index : clear ≤ p.index
  /-- The trace has the texts in between, the current one included. -/
  trace_eq : p.trace = " ".intercalate (textsBetween token clear (p.index + 1))

/-- A parser over the tokens of a text sees them, and behind them the end of the text. -/
theorem tokenAt_tokensFrom (g : Grammar) (file : String) (offset : Nat) (cs : List Char) :
    (ofTokens g (tokensFrom file offset cs)).tokenAt = tokenFrom file offset cs := by
  obtain ⟨ts, hts, -⟩ := tokensFrom_eq_append file offset cs
  funext i
  rw [tokenFrom, hts, tokenAt_ofTokens]

/-- The tokens that a parser sees are those of its source, and behind them its end. -/
theorem tokenAt_ofSource (file source : String) :
    (ofSource file source).tokenAt = sourceToken file source := by
  rw [sourceToken_eq, ofSource, tokenize, tokenAt_tokensFrom]

/-- No text is left of the end of a source. -/
theorem silent_ofSource (file source : String) : (ofSource file source).Silent := by
  obtain ⟨ts, hts, hspelt⟩ := tokensFrom_eq_append file 0 source.toList
  intro i
  rw [tokenAt_ofSource, sourceToken_eq, tokenFrom, hts]
  cases hi : (ts ++ [.endOf file (0 + byteLength source.toList)])[i]? with
  | none => exact fun _ => rfl
  | some t =>
    intro heof
    rcases List.mem_append.1 (List.mem_of_getElem? hi) with ht | ht
    · exact absurd heof (hspelt t ht).ne_eof
    · rw [List.mem_singleton.1 ht]
      rfl

end Parser

/-- **Cursor and trace.** Behind any operations a parser at the beginning of a source looks at two
neighbouring tokens of it, behind which there is only its end, and the trace has the texts from the
clear point up to the first of them; further operations lead to no earlier token and only add to the
diagnostics.

A source is read in the same way, round by round. Each unexpected token is reported in one of the
rounds with the texts of the tokens that lie between the last statement completed before that round and
this token. -/
theorem operations_trace (file source : String) :
    (∀ ops more : List Operation,
      (Operation.performAll ops (.ofSource file source)).Follows (sourceToken file source)
          (Operation.clearPointAll 0 (.ofSource file source) ops) ∧
        (Operation.performAll ops (.ofSource file source)).index ≤
          (Operation.performAll (ops ++ more) (.ofSource file source)).index ∧
        (Operation.performAll ops (.ofSource file source)).diagnostics.toList <+:
          (Operation.performAll (ops ++ more) (.ofSource file source)).diagnostics.toList) ∧
      (parseAs file source).program.statements =
        (Parser.ofSource file source).rounds.filterMap Parser.statement? ∧
      (parseAs file source).diagnostics =
        (Parser.ofSource file source).rounds.flatMap Parser.found ∧
      ∀ earlier round later, (Parser.ofSource file source).rounds = earlier ++ round :: later →
        ∀ d ∈ round.found, ∀ expected found trace, d.cause = .unexpectedToken expected found trace →
          ∃ m, round.index ≤ m ∧ m ≤ round.behind.index ∧
            found = (sourceToken file source m).kind ∧
            d.position = (sourceToken file source m).span.start ∧
            trace = " ".intercalate (textsBetween (sourceToken file source)
              (Parser.clearPoint 0 earlier) m) := by
  have hstart : (Parser.ofSource file source).TracedFrom 0 := Parser.tracedFrom_ofTokens _ _
  have htokens := Parser.tokenAt_ofSource file source
  have hsilent := Parser.silent_ofSource file source
  obtain ⟨q, hrounds, hprogram⟩ := (Parser.ofSource file source).exec_parseProgram
  have hparsed : parseAs file source =
      ⟨⟨(Parser.ofSource file source).rounds.filterMap Parser.statement?⟩, q.diagnostics.toList⟩ := by
    rw [parseAs, parseTokens, ← Parser.ofSource, hprogram]
    rfl
  refine ⟨fun ops more => ⟨?_, ?_, ?_⟩, by rw [hparsed], ?_, ?_⟩
  · have hlater := Operation.later_performAll ops (.ofSource file source)
    have htraced := Operation.tracedFrom_performAll hstart ops
    rw [← htokens, ← hlater.tokenAt_funext]
    exact ⟨rfl, rfl, htraced.le_index, htraced.trace_eq⟩
  · rw [Operation.performAll_append]
    exact (Operation.later_performAll more _).index_le
  · rw [Operation.performAll_append, (Operation.later_performAll more _).diagnostics_append]
    exact List.prefix_append _ _
  · have hnone : (Parser.ofSource file source).diagnostics.toList = [] := by
      rw [Parser.ofSource, Parser.diagnostics_ofTokens]
    rw [hparsed, Parser.diagnostics_rounds hrounds, hnone, List.nil_append]
  · intro earlier round later hsplit d hd expected found trace hcause
    -- the clear point belongs to the rounds before this one, not to the place of the token
    have hbefore := Parser.rounds_before (hsplit ▸ hrounds)
    have hlater := Parser.later_rounds hbefore
    rw [Parser.found_eq] at hd
    obtain ⟨m, hm⟩ := (hstart.rounds hbefore).unexpected (hsilent.later hlater)
      round.traces_statement hd hcause
    rw [hlater.tokenAt_funext, htokens, ← Parser.index_behind] at hm
    exact ⟨m, hm⟩

/-- What was read for the first statement is no longer in the trace when the second one breaks off. -/
example : (parseAs defaultFileName "a; let b 1").diagnostics.map (·.cause) =
    [.unexpectedToken .assign .integer "let b"] := by decide +kernel

end MonkeySyntax
