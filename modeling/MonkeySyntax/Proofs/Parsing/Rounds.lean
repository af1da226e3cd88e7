import MonkeySyntax.Proofs.Grammar.Acceptance
import MonkeySyntax.Proofs.Parsing.Trace

/-! # The rounds of a program

The loop over the statements of a program tries one statement after the other. A round is told by the
parser before it; behind a statement that is completed the trace begins anew.

* **`Parser.rounds`** — the parsers before the rounds of the loop.
* `Parser.statement?`, `Parser.found` — the statement of a round, and the diagnostics found in it.
* **`Parser.completed?`**, `Parser.clearPoint` — the token behind a completed statement, and the last
  such token behind some rounds.
* **`Rounds p rs q`** — the rounds lead from one parser to another; `exec_parseProgram` says that those
  of the loop do, and the other lemmas are by induction on them. -/

namespace MonkeySyntax

open Parsing ParseM

namespace Parser

/-- The statement of a round, if it is completed. -/
def statement? (r : Parser) : Option Statement :=
  (parseStatement.exec r).1

/-- The parser behind a round. -/
def behind (r : Parser) : Parser :=
  (programItem.exec r).2

/-- The diagnostics that are found in a round. -/
def found (r : Parser) : List Diagnostic :=
  r.foundUntil r.behind

/-- **The number of the token behind the last one of the statement** of a round, if it is completed. -/
def completed? (r : Parser) : Option Nat :=
  r.statement?.map fun _ => (parseStatement.exec r).2.index + 1

/-- **Where the trace begins behind some rounds**: behind the last statement that is completed in them.
Without one it begins where it began before them. -/
def clearPoint (clear : Nat) (rs : List Parser) : Nat :=
  rs.foldl (fun clear r => r.completed?.getD clear) clear

/-- The rounds from a parser on, at most the given number. -/
def roundsWithin : Nat → Parser → List Parser
  | 0, _ => []
  | n + 1, p => if currentIs .eof p then [] else p :: roundsWithin n p.behind

/-- **The rounds of the loop over the statements**: the parsers before them, up to the end of the
source. -/
def rounds (p : Parser) : List Parser :=
  roundsWithin p.remaining p

end Parser

/-- **The rounds lead from one parser to another.** -/
inductive Rounds : Parser → List Parser → Parser → Prop where
  /-- No round leaves the parser where it is. -/
  | nil {p} : Rounds p [] p
  /-- Behind the first round come the others. -/
  | cons {p q rs} (h : Rounds p.behind rs q) : Rounds p (p :: rs) q

namespace Parser

variable {p q r : Parser} {rs us : List Parser} {clear : Nat}

/-! ### One round -/

/-- What a round does: a statement is tried, the trace begins anew behind one that is completed, and
the parser moves on. -/
theorem behind_eq (r : Parser) :
    r.behind = (restart r.statement? (parseStatement.exec r).2).advance := by
  rw [behind, exec_programItem]
  rfl

/-- Behind a round the parser stands at the token behind the last one of its statement. -/
theorem index_behind (r : Parser) : r.behind.index = (parseStatement.exec r).2.index + 1 := by
  rw [behind_eq, advance_index, restart]
  split <;> rfl

theorem traces_statement (r : Parser) : Traces r (parseStatement.exec r).2 :=
  keeps_parseStatement stepRelation_traces r

/-- A round leads to a later parser. -/
theorem later_behind (r : Parser) : Later r r.behind :=
  keeps_programItem stepRelation_later later_clearTrace r

/-- What a round finds is found in its statement. -/
theorem found_eq (r : Parser) : r.found = r.foundUntil (parseStatement.exec r).2 := by
  have hlater : Later (parseStatement.exec r).2 r.behind := later_programItem r
  -- neither the empty trace nor the step to the next token adds a diagnostic
  have hdiagnostics : r.behind.diagnostics = (parseStatement.exec r).2.diagnostics := by
    rw [behind_eq, advance_diagnostics, restart]
    split <;> rfl
  rw [found, (traces_statement r).foundUntil_append hlater, foundUntil_eq_nil hdiagnostics,
    List.append_nil]

/-- **Behind a round the trace begins behind its statement**, or where it began before. -/
theorem TracedFrom.behind (h : r.TracedFrom clear) :
    r.behind.TracedFrom (r.completed?.getD clear) := by
  rw [behind_eq, completed?]
  cases r.statement? with
  | none => exact (h.traces (traces_statement r)).traces (traces_advance _)
  | some s => exact tracedFrom_advance_clearTrace _

/-! ### Many rounds -/

theorem later_rounds (h : Rounds p rs q) : Later p q := by
  induction h with
  | nil => exact later_refl _
  | cons _ ih => exact (later_behind _).trans ih

/-- Each round lies between the first parser and the last one. -/
theorem later_of_mem_rounds {rs : List Parser} (h : Rounds p rs q) :
    ∀ r ∈ rs, Later p r ∧ Later (parseStatement.exec r).2 q := by
  induction h with
  | nil => exact fun r hr => absurd hr List.not_mem_nil
  | @cons p q rs hrest ih =>
    refine List.forall_mem_cons.2 ⟨⟨later_refl p, (later_programItem p).trans (later_rounds hrest)⟩, ?_⟩
    exact fun r hr => ⟨(later_behind p).trans (ih r hr).1, (ih r hr).2⟩

/-- The rounds before one of them lead to the parser before it. -/
theorem rounds_before (h : Rounds p (rs ++ r :: us) q) : Rounds p rs r := by
  induction rs generalizing p with
  | nil =>
    cases h
    exact .nil
  | cons s rs ih =>
    cases h with
    | cons h => exact .cons (ih h)

/-- **Behind all rounds the trace begins at their clear point.** -/
theorem TracedFrom.rounds (h : p.TracedFrom clear) (hrounds : Rounds p rs q) :
    q.TracedFrom (clearPoint clear rs) := by
  induction hrounds generalizing clear with
  | nil => exact h
  | cons _ ih => exact ih h.behind

/-- What is found is found round by round. -/
theorem diagnostics_rounds (h : Rounds p rs q) :
    q.diagnostics.toList = p.diagnostics.toList ++ rs.flatMap found := by
  induction h with
  | nil => rw [List.flatMap_nil, List.append_nil]
  | @cons p q rs _ ih =>
    rw [ih, (later_behind p).diagnostics_append, List.flatMap_cons, List.append_assoc]
    rfl

/-- The loop goes round by round. -/
theorem exec_collectWithin_rounds (n : Nat) (p : Parser) :
    ∃ q, Rounds p (roundsWithin n p) q ∧
      (collectWithin (!currentIs .eof ·) programItem n).exec p =
        (some ((roundsWithin n p).map statement?), q) := by
  induction n generalizing p with
  | zero => exact ⟨p, .nil, rfl⟩
  | succ n ih =>
    rw [roundsWithin]
    cases hend : currentIs .eof p with
    | true =>
      rw [if_pos rfl]
      exact ⟨p, .nil, exec_collectWithin_false (by rw [hend]; rfl) programItem n⟩
    | false =>
      rw [if_neg Bool.false_ne_true]
      obtain ⟨q, hrounds, hloop⟩ := ih p.behind
      have hitem : programItem.exec p = (some p.statement?, p.behind) := by
        rw [behind_eq]
        exact exec_programItem p
      refine ⟨q, .cons hrounds, ?_⟩
      rw [exec_collectWithin_true (by rw [hend]; rfl) programItem n, exec_bind_some hitem,
        exec_bind_some hloop]
      rfl

/-- **A program is read round by round**, and holds the statements that were completed. -/
theorem exec_parseProgram (p : Parser) :
    ∃ q, Rounds p p.rounds q ∧
      parseProgram.exec p = (some ⟨p.rounds.filterMap statement?⟩, q) := by
  obtain ⟨q, hrounds, hloop⟩ := exec_collectWithin_rounds p.remaining p
  refine ⟨q, hrounds, ?_⟩
  have hcollect : (collectWhile (!currentIs .eof ·) programItem).exec p =
      (some (p.rounds.map statement?), q) := hloop
  rw [parseProgram, exec_bind_some hcollect, exec_pure, List.filterMap_map]
  rfl

end Parser

end MonkeySyntax
