import MonkeySyntax.Proofs.Parsing.CourseRule
import MonkeySyntax.Proofs.Parsing.Depth
import MonkeySyntax.Proofs.Parsing.Progress

/-! # Parsing terminates

A source is read to its end in a number of steps that grows with the number of its tokens, and neither
the limit on nesting nor any other bound is what ends it.

* **`parseProgram_terminates`** — the course of a program over any source, with any limit. -/

namespace MonkeySyntax

open Parsing

/-- **A program is read to the end of its source**, whatever the limit on nesting: the actions take a
course without bounds on loops or recursion, which gives a program and stops at the end. Where `n`
tokens stand before the end, it moves on no more than `2 * n + 1` times, and no more than `n + 1`
expressions are ever open, so a limit greater than `n` is never met. -/
theorem parseProgram_terminates (limit : Nat) (file source : String) :
    ∃ program log q,
      parseProgram.exec (.ofTokens (.limited limit) (tokenize source file)) = (some program, q) ∧
      Course Parser.BeforeEnd .program (.ofTokens (.limited limit) (tokenize source file)) true log q ∧
      q.current.kind = .eof ∧
      q.index = (log.map Event.step).count .advance ∧
      (log.map Event.step).count .advance ≤ 2 * sourceLength file source + 1 ∧
      (∀ e ∈ log, e.before.depth ≤ sourceLength file source + 1) ∧
      (sourceLength file source < limit → ∀ e ∈ log, e.step ≠ .refuse) := by
  have hp := Parser.endsAt_tokenize limit file source
  have hindex := Parser.index_ofTokens (.limited limit) (tokenize source file)
  have hdepth := Parser.depth_ofTokens (.limited limit) (tokenize source file)
  have hgrammar := Parser.grammar_ofTokens (.limited limit) (tokenize source file)
  -- the parser before it begins is named, so that nothing looks into it
  generalize Parser.ofTokens (.limited limit) (tokenize source file) = p at *
  generalize sourceLength file source = n at *
  have hlimit : p.grammar.depthLimit = limit := by rw [hgrammar]; rfl
  rcases hrun : parseProgram.exec p with ⟨program, q⟩
  obtain ⟨log, hcourse⟩ :=
    (follows_parseProgram Parser.beforeEnd_of_kind hp.standard).course hrun
  obtain ⟨hok, hend⟩ := hcourse.of_program
  obtain ⟨program, rfl⟩ := Option.isSome_iff_exists.1 hok
  have hcount := hcourse.leads.index
  rw [hindex, Nat.zero_add] at hcount
  have hreach := (hcourse.reach hp).add_le (by omega)
  rw [hindex, Nat.zero_add, hcount] at hreach
  have hshallow := hcourse.shallow ⟨hp, by omega, by omega⟩
  have hguarded := hcourse.guarded ⟨hlimit, by omega⟩
  refine ⟨program, log, q, rfl, hcourse, hend, hcount, hreach, fun e he => (hshallow e he).1, ?_⟩
  intro hlt e he hstep
  -- an expression is refused at the limit, where more expressions would be open than tokens read
  have hfull := (hguarded e he).depth_eq hstep
  have hle := (hshallow e he).2 hstep
  omega

end MonkeySyntax
