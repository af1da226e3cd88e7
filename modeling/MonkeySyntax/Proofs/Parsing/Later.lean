import MonkeySyntax.Proofs.Parsing.StepRelation

/-! # What lies behind an action

A parser only moves forward and only adds to its diagnostics; its tokens, its rules and the number
of open expressions are the same before and behind every action.

* **`Parser.Later p q`** — `q` is such a parser behind `p`, and each diagnostic added in between
  stands at a token that lies between the two places or right behind the last one.
* **`Parser.stepRelation_later`** — every step leads to a later parser, hence every action does.
* **`Parser.Standard`** — the parsers that follow the rules of the language, whatever their limit. -/

namespace MonkeySyntax

namespace Parser

/-- **`q` is later than `p`**: what an action may change and what it leaves alone. -/
structure Later (p q : Parser) : Prop where
  /-- The tokens stay. -/
  tokens_eq : q.tokens = p.tokens
  /-- So does the token behind them. -/
  eof_eq : q.eof = p.eof
  /-- So do the rules. -/
  grammar_eq : q.grammar = p.grammar
  /-- What was opened has been closed. -/
  depth_eq : q.depth = p.depth
  /-- No token is read twice. -/
  index_le : p.index ≤ q.index
  /-- Diagnostics are only added, at the tokens that were looked at. -/
  diagnostics_eq : ∃ found : List Diagnostic,
    q.diagnostics.toList = p.diagnostics.toList ++ found ∧
      ∀ d ∈ found, ∃ i, p.index ≤ i ∧ i ≤ q.index + 1 ∧ d.position = (p.tokenAt i).span.start

variable {p q r : Parser}

theorem Later.tokenAt_eq (h : Later p q) (i : Nat) : q.tokenAt i = p.tokenAt i := by
  rw [tokenAt, tokenAt, h.tokens_eq, h.eof_eq]

/-- Nothing that was reported is taken back. -/
theorem Later.size_le (h : Later p q) : p.diagnostics.size ≤ q.diagnostics.size := by
  obtain ⟨found, hfound, -⟩ := h.diagnostics_eq
  rw [← Array.length_toList, ← Array.length_toList, hfound, List.length_append]
  exact Nat.le_add_right _ _

/-- What was reported is still there. -/
theorem Later.mem_diagnostics (h : Later p q) {d : Diagnostic} (hd : d ∈ p.diagnostics.toList) :
    d ∈ q.diagnostics.toList := by
  obtain ⟨found, hfound, -⟩ := h.diagnostics_eq
  rw [hfound]
  exact List.mem_append_left _ hd

/-- Where nothing was reported the diagnostics are the same. -/
theorem Later.diagnostics_of_size (h : Later p q)
    (hsize : q.diagnostics.size = p.diagnostics.size) : q.diagnostics = p.diagnostics := by
  obtain ⟨found, hfound, -⟩ := h.diagnostics_eq
  have hlength := congrArg List.length hfound
  rw [List.length_append, Array.length_toList, Array.length_toList, hsize] at hlength
  have hnil : found = [] := List.eq_nil_of_length_eq_zero (by omega)
  rw [hnil, List.append_nil] at hfound
  exact Array.toList_inj.1 hfound

theorem Later.levels_eq (h : Later p q) : q.levels = p.levels := by
  rw [levels, levels, h.grammar_eq, h.depth_eq]

/-- A later parser that has moved on inside the source has fewer tokens left. -/
theorem Later.remaining_lt (h : Later p q) (hindex : p.index < q.index)
    (hsize : p.index < p.tokens.size) : q.remaining < p.remaining := by
  rw [remaining, remaining, h.tokens_eq]
  omega

theorem later_refl (p : Parser) : Later p p where
  tokens_eq := rfl
  eof_eq := rfl
  grammar_eq := rfl
  depth_eq := rfl
  index_le := le_rfl
  diagnostics_eq := ⟨[], by simp, by simp⟩

theorem Later.trans (hpq : Later p q) (hqr : Later q r) : Later p r where
  tokens_eq := hqr.tokens_eq.trans hpq.tokens_eq
  eof_eq := hqr.eof_eq.trans hpq.eof_eq
  grammar_eq := hqr.grammar_eq.trans hpq.grammar_eq
  depth_eq := hqr.depth_eq.trans hpq.depth_eq
  index_le := Nat.le_trans hpq.index_le hqr.index_le
  diagnostics_eq := by
    obtain ⟨first, hfirst, hfirstAt⟩ := hpq.diagnostics_eq
    obtain ⟨second, hsecond, hsecondAt⟩ := hqr.diagnostics_eq
    have hle₁ := hpq.index_le
    have hle₂ := hqr.index_le
    refine ⟨first ++ second, by rw [hsecond, hfirst, List.append_assoc], ?_⟩
    intro d hd
    rcases List.mem_append.1 hd with hd | hd
    · obtain ⟨i, hi, hi', hposition⟩ := hfirstAt d hd
      exact ⟨i, hi, by omega, hposition⟩
    · obtain ⟨i, hi, hi', hposition⟩ := hsecondAt d hd
      exact ⟨i, by omega, hi', by rw [hposition, hpq.tokenAt_eq]⟩

theorem later_advance (p : Parser) : Later p p.advance where
  tokens_eq := p.advance_tokens
  eof_eq := p.advance_eof
  grammar_eq := p.advance_grammar
  depth_eq := p.advance_depth
  index_le := by simp
  diagnostics_eq := ⟨[], by simp, by simp⟩

/-- A diagnostic may be added at the current token or at the one after it. -/
theorem later_report {i : Nat} (hi : p.index ≤ i) (hi' : i ≤ p.index + 1) (cause : Cause) :
    Later p (p.report cause (p.tokenAt i)) where
  tokens_eq := rfl
  eof_eq := rfl
  grammar_eq := rfl
  depth_eq := rfl
  index_le := le_rfl
  diagnostics_eq := by
    refine ⟨[⟨cause, (p.tokenAt i).span.start⟩], by simp [report], ?_⟩
    intro d hd
    rw [List.mem_singleton.1 hd]
    exact ⟨i, hi, hi', rfl⟩

theorem later_clearTrace (p : Parser) : Later p p.clearTrace where
  tokens_eq := rfl
  eof_eq := rfl
  grammar_eq := rfl
  depth_eq := rfl
  index_le := le_rfl
  diagnostics_eq := ⟨[], by simp [clearTrace], by simp⟩

/-- **Every step leads to a later parser.** -/
theorem stepRelation_later : StepRelation Later where
  refl := later_refl
  trans := Later.trans
  advance := later_advance
  missing p _ _ := later_report (Nat.le_succ _) le_rfl _
  unclosed p _ := later_report le_rfl (Nat.le_succ _) _
  noExpression p _ := later_report le_rfl (Nat.le_succ _) _
  invalidInteger p _ _ := later_report le_rfl (Nat.le_succ _) _
  tooDeep p := later_report le_rfl (Nat.le_succ _) _
  nested p q _ h :=
    { tokens_eq := h.tokens_eq
      eof_eq := h.eof_eq
      grammar_eq := h.grammar_eq
      depth_eq := by
        have hdepth := h.depth_eq
        rw [withDepth_depth] at hdepth ⊢
        omega
      index_le := h.index_le
      diagnostics_eq := h.diagnostics_eq }

/-! ### Parsers that follow the rules of the language -/

/-- The parser follows the rules of the language and its tokens are closed by `eof`. Its limit on
nesting may be any. -/
structure Standard (p : Parser) : Prop where
  /-- Behind the last token there is only the end of the source. -/
  eof_kind : p.eof.kind = .eof
  /-- First parts are those of the language. -/
  prefixRule?_eq : p.grammar.prefixRule? = Grammar.standardPrefixRule?
  /-- Operators are those of the language. -/
  operator?_eq : p.grammar.operator? = Grammar.standardOperator?
  /-- Statements are those of the language. -/
  statementRule?_eq : p.grammar.statementRule? = Grammar.standardStatementRule?

/-- With the grammar of the language its rules are followed. -/
theorem standard_of_grammar (hgrammar : p.grammar = .standard) (heof : p.eof.kind = .eof) :
    p.Standard :=
  ⟨heof, by rw [hgrammar]; rfl, by rw [hgrammar]; rfl, by rw [hgrammar]; rfl⟩

/-- The rules are followed also later on. -/
theorem Standard.later (hp : p.Standard) (h : Later p q) : q.Standard where
  eof_kind := by rw [h.eof_eq]; exact hp.eof_kind
  prefixRule?_eq := by rw [h.grammar_eq]; exact hp.prefixRule?_eq
  operator?_eq := by rw [h.grammar_eq]; exact hp.operator?_eq
  statementRule?_eq := by rw [h.grammar_eq]; exact hp.statementRule?_eq

theorem Standard.advance (hp : p.Standard) : p.advance.Standard :=
  hp.later (later_advance p)

theorem Standard.withDepth (hp : p.Standard) (n : Nat) : (p.withDepth n).Standard where
  eof_kind := hp.eof_kind
  prefixRule?_eq := hp.prefixRule?_eq
  operator?_eq := hp.operator?_eq
  statementRule?_eq := hp.statementRule?_eq

/-- A token that is not `eof` lies inside the source. -/
theorem Standard.lt_size (hp : p.Standard) {i : Nat} (h : (p.tokenAt i).kind ≠ .eof) :
    i < p.tokens.size := by
  by_contra hi
  rw [tokenAt, Array.getElem?_eq_none (Nat.le_of_not_lt hi), Option.getD_none] at h
  exact h hp.eof_kind

end Parser

end MonkeySyntax
