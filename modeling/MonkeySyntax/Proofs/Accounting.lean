import Mathlib.Data.List.Perm.Subperm
import MonkeySyntax.Proofs.Parsing.Charging
import MonkeySyntax.Proofs.Parsing.CourseRule
import MonkeySyntax.Proofs.Parsing.Depth

/-! # Diagnostics do not pile up

However much is wrong with a source, there are no more diagnostics than tokens: each of them has a
token of its own that answers for it.

* **`parseAs_diagnostics_accounted`** — the tokens that answer for the diagnostics of a source. -/

namespace MonkeySyntax

open Parsing

/-- The tokens of a parser before it begins are those of the source. -/
theorem Parser.getElem?_of_tokenAt {limit i : Nat} {file source : String}
    (hi : i ≤ sourceLength file source) :
    (tokenize source file)[i]? =
      some ((ofTokens (.limited limit) (tokenize source file)).tokenAt i) := by
  have hlt : i < (tokenize source file).length := by
    rw [length_tokenize]
    exact Nat.lt_succ_of_le hi
  rw [tokenAt, ← Array.getElem?_toList, tokens_ofTokens, List.getElem?_eq_getElem hlt,
    Option.getD_some]

/-- **Every diagnostic of a source has a token of its own** that answers for it: the first token of an
expression that fails, or the one that opens a construct and requires what is missed. So there are no
more diagnostics than tokens, the end of the source being one of them. -/
theorem parseAs_diagnostics_accounted (file source : String) :
    (∃ notes : List (Nat × Diagnostic),
      (parseAs file source).diagnostics = notes.map Prod.snd ∧
      (notes.map Prod.fst).Nodup ∧
      ∀ note ∈ notes, ∃ t, (tokenize source file)[note.1]? = some t ∧ t.AnswersFor note.2) ∧
    (parseAs file source).diagnostics.length ≤ (tokenize source file).length := by
  have hp := Parser.endsAt_tokenize 256 file source
  rcases hrun : parseProgram.exec (.ofTokens .standard (tokenize source file)) with ⟨program, q⟩
  obtain ⟨log, hcourse⟩ :=
    (follows_parseProgram Parser.beforeEnd_of_kind hp.standard).course hrun
  have hcharged := hcourse.charged hp trivial
  have hdiagnostics : (parseAs file source).diagnostics =
      (log.filterMap Event.note?).map Prod.snd := by
    rw [parseAs_of_exec hrun, hcourse.diagnostics, Parser.diagnostics_ofTokens, List.nil_append]
  refine ⟨⟨log.filterMap Event.note?, hdiagnostics, hcharged.nodup, fun note hnote => ?_⟩, ?_⟩
  · exact ⟨_, Parser.getElem?_of_tokenAt (hcharged.le_end note hnote),
      hcharged.answersFor note hnote⟩
  · -- the places of the tokens that answer are different, and no more than there are tokens
    have hplaces : (log.filterMap Event.note?).map Prod.fst ⊆
        List.range (tokenize source file).length := by
      intro c hc
      obtain ⟨note, hnote, rfl⟩ := List.mem_map.1 hc
      rw [List.mem_range, length_tokenize]
      exact Nat.lt_succ_of_le (hcharged.le_end note hnote)
    have hlength := (hcharged.nodup.subperm hplaces).length_le
    rw [List.length_map, List.length_range] at hlength
    rw [hdiagnostics, List.length_map]
    exact hlength

end MonkeySyntax
