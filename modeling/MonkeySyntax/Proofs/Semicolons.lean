import MonkeySyntax.Proofs.Parsing.CourseRule
import MonkeySyntax.Proofs.Parsing.Progress
import MonkeySyntax.Proofs.Parsing.Rounds
import MonkeySyntax.Proofs.Parsing.StatementValue
import MonkeySyntax.Proofs.Parsing.Stopping

/-! # What a semicolon separates

In a source without blocks the statements lie on one side of each semicolon, with one exception: where
a token that takes an operand stands right before the semicolon, the operand is missed there, and the
statement may go on behind.

* `Statement.OnOneSide before behind` — a statement lies on one side of a token.
* **`OperandMissing before u ds`** — an operand is missing at `u`, and the diagnostics tell it.
* `Parser.ValueOf.separated` — one statement and one semicolon.
* **`semicolon_separates`** — the statements of a source. -/

namespace MonkeySyntax

open Parsing ParseM

/-! ### One semicolon -/

/-- **An operand is missing** at the token `u` behind others: the last one of these takes an operand, and
a diagnostic tells that none can be read at `u`. -/
structure OperandMissing (before : List Token) (u : Token) (ds : List Diagnostic) : Prop where
  /-- The token before takes an operand. -/
  takes : ∃ t ∈ before.getLast?, t.kind.TakesOperand
  /-- There is a diagnostic. -/
  told : ∃ d ∈ ds, d.position = u.span.start ∧
    (d.cause = .noExpression .semicolon ∨ d.cause = .nestingTooDeep 256)

/-- **A statement lies on one side** of a token: all its tokens stand before it, or all behind it. -/
def Statement.OnOneSide (s : Statement) (before behind : List Token) : Prop :=
  s.tokens.Sublist before ∨ s.tokens.Sublist behind

namespace Parser

variable {r p q : Parser} {s : Statement} {value : Option Expr} {before behind : List Token}
  {u : Token}

/-- What stands on a way that ends before a token stands before that token. -/
theorem sublist_before {ts : List Token} {k : Nat} (hsplit : r.tokens.toList = before ++ u :: behind)
    (h : ts.Sublist (r.rest.take k)) (hle : r.index + k ≤ before.length) : ts.Sublist before := by
  rw [rest, hsplit, List.take_drop, List.take_append_of_le_length hle] at h
  exact h.trans ((List.drop_sublist _ _).trans (List.take_sublist _ _))

/-- What stands on a way that begins behind a token stands behind that token. -/
theorem sublist_behind {ts : List Token} {k : Nat} (hsplit : r.tokens.toList = before ++ u :: behind)
    (h : ts.Sublist (r.rest.take k)) (hlt : before.length < r.index) : ts.Sublist behind := by
  obtain ⟨i, hi⟩ := Nat.exists_eq_add_of_lt hlt
  rw [rest, hsplit, hi, Nat.add_assoc, List.drop_length_add_append, List.drop_succ_cons] at h
  exact h.trans ((List.take_sublist _ _).trans (List.drop_sublist _ _))

/-- **A statement lies on one side of a semicolon** unless an operand is missing there. -/
theorem ValueOf.separated (h : r.ValueOf s p value q) (hr : r.Standard)
    (hlimit : r.grammar.depthLimit = 256) (hsplit : r.tokens.toList = before ++ u :: behind)
    (hu : u.kind = .semicolon) (hunbraced : ∀ t ∈ r.tokens.toList, t.kind ≠ .openBrace) :
    s.OnOneSide before behind ∨ OperandMissing before u q.diagnostics.toList := by
  have htoken (i : Nat) : r.tokenAt i = (before ++ u :: behind)[i]?.getD r.eof := by
    rw [tokenAt, ← Array.getElem?_toList, hsplit]
  have hat : r.tokenAt before.length = u := by simp [htoken]
  have hopen (i : Nat) : (r.tokenAt i).kind ≠ .openBrace := by
    rw [htoken]
    cases hget : (before ++ u :: behind)[i]? with
    | none => exact ne_of_eq_of_ne hr.eof_kind (by decide)
    | some t => exact hunbraced t (hsplit ▸ List.mem_of_getElem? hget)
  have hp : p.Parted before.length :=
    ⟨hr.later h.later, by rw [h.later.tokenAt_eq, hat, hu], fun i _ => by
      rw [h.later.tokenAt_eq]; exact hopen i⟩
  have hle := h.later.index_le
  have hfollows : MonkeySyntax.Follows (fun _ => True) (.expression .lowest) (parseExpr .lowest) p :=
    follows_parseExpr (fun _ _ => trivial) hp.standard .lowest
  obtain ⟨log, hcourse⟩ := hfollows.course h.exec
  have hlater := hcourse.later.index_le
  rcases Nat.lt_or_ge before.length r.index with hlt | hge
  · exact .inl (.inr (sublist_behind hsplit h.tokens hlt))
  rcases Nat.lt_trichotomy before.length p.index with hlt | heq | hlt
  · exact absurd hu (hat ▸ h.lead _ hge hlt)
  · -- the value would begin at the semicolon, so there is none
    have hsemicolon : p.current.kind = .semicolon := by rw [current, ← heq, hp.semicolon]
    obtain ⟨hnone, -⟩ := hcourse.at_semicolon hp.standard hsemicolon
    obtain ⟨-, htokens⟩ := h.missing (Option.not_isSome_iff_eq_none.1 (by simp [hnone]))
    exact .inl (.inl (sublist_before hsplit htokens (by omega)))
  · rcases hcourse.stops_or_misses hp trivial hlt with hstop | hmisses
    · exact .inl (.inl (sublist_before hsplit h.tokens (by omega)))
    · obtain ⟨htakes, note, hnote, hposition, hcause⟩ := hmisses
      rw [h.later.tokenAt_eq] at htakes hposition
      rw [h.later.grammar_eq, hlimit] at hcause
      refine .inr ⟨⟨r.tokenAt (before.length - 1), ?_, htakes⟩, note.2, ?_, by rw [hposition, hat],
        hcause⟩
      · have hlt' : before.length - 1 < before.length := by omega
        rw [htoken, List.getElem?_append_left hlt', List.getElem?_eq_getElem hlt', Option.getD_some,
          List.getLast?_eq_getElem?, List.getElem?_eq_getElem hlt']
        rfl
      · rw [hcourse.diagnostics]
        exact List.mem_append_right _ (List.mem_map_of_mem hnote)

end Parser

/-! ### All semicolons -/

theorem OperandMissing.mono {before : List Token} {u : Token} {ds ds' : List Diagnostic}
    (h : OperandMissing before u ds) (hsub : ds ⊆ ds') : OperandMissing before u ds' := by
  obtain ⟨htakes, d, hd, hrest⟩ := h
  exact ⟨htakes, d, hsub hd, hrest⟩

/-- **A semicolon separates statements** where no operand is missing. In a source without opening
braces, valid or not, take any semicolon. Each statement of the program keeps only tokens before it or
only tokens behind it, unless an operand is missing at the semicolon: then the token right before it is
an operator, an opening parenthesis or a comma, and a diagnostic stands at the semicolon. The same holds
in terms of offsets, where these fit. -/
theorem semicolon_separates (file source : String) {before behind : List Token} {u : Token}
    (hunbraced : ∀ t ∈ tokenize source file, t.kind ≠ .openBrace)
    (hsplit : tokenize source file = before ++ u :: behind) (hu : u.kind = .semicolon) :
    (∀ s ∈ (parseAs file source).program.statements,
      s.OnOneSide before behind ∨ OperandMissing before u (parseAs file source).diagnostics) ∧
    (byteLength source.toList < offsetBound → ∀ s ∈ (parseAs file source).program.statements,
      ∀ a ∈ s.tokens, ∀ b ∈ s.tokens, a.start < u.start → u.start < b.start →
        OperandMissing before u (parseAs file source).diagnostics) := by
  have hsides : ∀ s ∈ (parseAs file source).program.statements,
      s.OnOneSide before behind ∨ OperandMissing before u (parseAs file source).diagnostics := by
    intro s hs
    let p := Parser.ofTokens .standard (tokenize source file)
    obtain ⟨q, hrounds, hexec⟩ := p.exec_parseProgram
    rw [parseAs_of_exec hexec] at hs ⊢
    obtain ⟨r, hr, hstatement⟩ := List.mem_filterMap.1 hs
    obtain ⟨hbefore, hbehind⟩ := Parser.later_of_mem_rounds hrounds r hr
    have hp : p.Standard := (Parser.endsAt_tokenize 256 file source).standard
    have htokens : r.tokens.toList = tokenize source file := by
      rw [hbefore.tokens_eq]
      simp [p, Parser.ofTokens]
    have hlimit : r.grammar.depthLimit = 256 := by
      rw [hbefore.grammar_eq, Parser.grammar_ofTokens]
      rfl
    obtain ⟨p', value, q', hvalue, hlater⟩ :=
      Parser.exists_valueOf (hp.later hbefore) (Prod.ext hstatement rfl)
    refine (hvalue.separated (hp.later hbefore) hlimit (htokens.trans hsplit) hu
      (htokens ▸ hunbraced)).imp_right (·.mono fun d hd => ?_)
    exact (hlater.trans hbehind).mem_diagnostics hd
  refine ⟨hsides, fun hfits s hs a ha b hb hau hub => (hsides s hs).resolve_left ?_⟩
  have hsorted := pairwise_start_tokenize file hfits
  rw [hsplit, List.pairwise_append, List.pairwise_cons] at hsorted
  obtain ⟨-, ⟨hbehind, -⟩, hbefore⟩ := hsorted
  rintro (hside | hside)
  · have hlt := hbefore b (hside.subset hb) u List.mem_cons_self
    omega
  · have hlt := hbehind a (hside.subset ha)
    omega

/-- Behind a whole expression no operand is missing: a sign behind the semicolon begins a statement. -/
theorem semicolon_separates_sign :
    (∀ t ∈ tokenize "1 + 2; -3" "", t.kind ≠ .openBrace) ∧
      ∃ before u behind, tokenize "1 + 2; -3" "" = before ++ u :: behind ∧ u.kind = .semicolon ∧
        ∀ s ∈ (parseAs "" "1 + 2; -3").program.statements, s.OnOneSide before behind := by
  have hunbraced : ∀ t ∈ tokenize "1 + 2; -3" "", t.kind ≠ .openBrace := by decide +kernel
  have hnone : (parseAs "" "1 + 2; -3").diagnostics = [] := by decide +kernel
  obtain ⟨u, hmem, hu⟩ : ∃ u ∈ tokenize "1 + 2; -3" "", u.kind = .semicolon := by decide +kernel
  obtain ⟨before, behind, hsplit⟩ := List.append_of_mem hmem
  refine ⟨hunbraced, before, u, behind, hsplit, hu, fun s hs => ?_⟩
  refine ((semicolon_separates "" "1 + 2; -3" hunbraced hsplit hu).1 s hs).resolve_right ?_
  rintro ⟨-, d, hd, -⟩
  exact absurd (hnone ▸ hd) List.not_mem_nil

/-- Where the operand before a semicolon is missing, the sign behind it goes on with the statement. -/
theorem semicolon_passed :
    ¬ ∀ source : String,
      (∀ t ∈ tokenize source defaultFileName, t.kind ≠ .openBrace ∧ t.kind ≠ .closeBrace) →
        ∀ u ∈ tokenize source defaultFileName, u.kind = .semicolon →
          ∀ s ∈ (parse source).program.statements, ∀ a ∈ s.tokens, ∀ b ∈ s.tokens,
            ¬ (a.start < u.start ∧ u.start < b.start) := by
  intro h
  exact absurd (h "1 + ; -2") (by decide +kernel)

end MonkeySyntax
