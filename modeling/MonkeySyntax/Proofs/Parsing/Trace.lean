import MonkeySyntax.Proofs.Parsing.Later

/-! # The trace along an action

Whatever an action does, the trace goes on with the texts of the tokens that are passed, and a token
that is not the required one is reported with the trace as it stands there.

* **`textsBetween token a b`** — the texts of the tokens with the numbers from `a` up to `b`.
* `Parser.foundUntil` — the diagnostics that are added between two parsers.
* **`Parser.Traces p q`** — what happens to the trace between two parsers, and what of it is reported.
* **`stepRelation_traces`** — it happens along every step, hence along every action.
* `Parser.Fresh` — only the current token has been read since the last complete statement.
* **`Parser.TracedFrom clear p`** — the trace of a parser begins at the token with the number `clear`;
  `TracedFrom.traces` keeps this along every action, and `TracedFrom.unexpected` says what is reported. -/

namespace MonkeySyntax

/-! ### Texts -/

/-- **The texts of the tokens with the numbers from `a` up to `b`**, without the empty ones. -/
def textsBetween (token : Nat → Token) (a b : Nat) : List String :=
  ((List.range' a (b - a)).map fun i => (token i).text).filter (!·.isEmpty)

section Texts

variable {token : Nat → Token} {a b c : Nat}

@[simp] theorem textsBetween_self (token : Nat → Token) (a : Nat) : textsBetween token a a = [] := by
  rw [textsBetween, Nat.sub_self]
  rfl

/-- One stretch of tokens behind another. -/
theorem textsBetween_append (hab : a ≤ b) (hbc : b ≤ c) :
    textsBetween token a b ++ textsBetween token b c = textsBetween token a c := by
  have hrange : List.range' a (b - a) ++ List.range' b (c - b) = List.range' a (c - a) := by
    have happend := List.range'_append_1 (s := a) (m := b - a) (n := c - b)
    rwa [show a + (b - a) = b by omega, show b - a + (c - b) = c - a by omega] at happend
  rw [textsBetween, textsBetween, textsBetween, ← List.filter_append, ← List.map_append, hrange]

/-- The text of one token. -/
theorem textsBetween_succ (token : Nat → Token) (a : Nat) :
    textsBetween token a (a + 1) = if (token a).text.isEmpty then [] else [(token a).text] := by
  rw [textsBetween, Nat.add_sub_cancel_left]
  by_cases hempty : (token a).text.isEmpty = true
  · simp [hempty]
  · simp [hempty]

end Texts

namespace Parser

variable {p q r : Parser} {clear : Nat} {d : Diagnostic}

theorem toList_traced_traceText (p : Parser) (text : String) :
    (p.traceText text).traced.toList = p.traced.toList ++ if text.isEmpty then [] else [text] := by
  unfold traceText
  by_cases hempty : text.isEmpty = true
  · rw [if_pos hempty, if_pos hempty, List.append_nil]
  · rw [if_neg hempty, if_neg hempty, Array.toList_push]

/-! ### What is found -/

/-- **The diagnostics that are added** between two parsers. -/
def foundUntil (p q : Parser) : List Diagnostic :=
  q.diagnostics.toList.drop p.diagnostics.size

/-- They stand behind those that were there before. -/
theorem Later.diagnostics_append (h : Later p q) :
    q.diagnostics.toList = p.diagnostics.toList ++ p.foundUntil q := by
  obtain ⟨found, hfound, -⟩ := h.diagnostics_eq
  rw [foundUntil, ← Array.length_toList, hfound, List.drop_left]

theorem Later.foundUntil_append (hpq : Later p q) (hqr : Later q r) :
    p.foundUntil r = p.foundUntil q ++ q.foundUntil r := by
  have happend := (hpq.trans hqr).diagnostics_append
  rw [hqr.diagnostics_append, hpq.diagnostics_append, List.append_assoc] at happend
  exact (List.append_cancel_left happend).symm

theorem foundUntil_eq_nil (h : q.diagnostics = p.diagnostics) : p.foundUntil q = [] := by
  rw [foundUntil, h, ← Array.length_toList, List.drop_length]

theorem foundUntil_report (p : Parser) (cause : Cause) (t : Token) :
    p.foundUntil (p.report cause t) = [⟨cause, t.span.start⟩] := by
  rw [foundUntil, report, Array.toList_push, ← Array.length_toList, List.drop_left]

/-! ### Along every action -/

/-- **What a diagnostic about an unexpected token says** when it is added at the token with the number
`k`, on the way from a parser. It is about the token behind that one, or about the end of the source if
the parser stands there. -/
def Complains (p : Parser) (k : Nat) (d : Diagnostic) : Prop :=
  ∀ expected found trace, d.cause = .unexpectedToken expected found trace →
    trace = " ".intercalate (p.traced.toList ++ textsBetween p.tokenAt (p.index + 1) (k + 1)) ∧
      ∃ t, (t = p.tokenAt (k + 1) ∨ t = p.tokenAt k ∧ t.kind = .eof) ∧
        found = t.kind ∧ d.position = t.span.start

/-- **The trace between two parsers**: it goes on with the texts of the tokens in between, and what is
reported is reported with the trace as it stands there. -/
structure Traces (p q : Parser) : Prop extends Later p q where
  /-- The texts of the tokens in between are added. -/
  traced_eq : q.traced.toList =
    p.traced.toList ++ textsBetween p.tokenAt (p.index + 1) (q.index + 1)
  /-- An unexpected token is reported with the trace. -/
  complains : ∀ d ∈ p.foundUntil q, ∃ k, p.index ≤ k ∧ k ≤ q.index ∧ p.Complains k d

/-- The same tokens are seen from a later parser. -/
theorem Later.tokenAt_funext (h : Later p q) : q.tokenAt = p.tokenAt :=
  funext h.tokenAt_eq

theorem Traces.traced_append (h : Traces p q) {k : Nat} (hk : q.index ≤ k) :
    q.traced.toList ++ textsBetween q.tokenAt (q.index + 1) (k + 1) =
      p.traced.toList ++ textsBetween p.tokenAt (p.index + 1) (k + 1) := by
  have hindex := h.index_le
  rw [h.traced_eq, h.tokenAt_funext, List.append_assoc,
    textsBetween_append (by omega : p.index + 1 ≤ q.index + 1) (by omega : q.index + 1 ≤ k + 1)]

theorem Traces.trans (hpq : Traces p q) (hqr : Traces q r) : Traces p r where
  toLater := hpq.toLater.trans hqr.toLater
  traced_eq := by rw [hqr.traced_eq, hpq.traced_append hqr.index_le]
  complains d hd := by
    have hpq' := hpq.index_le
    have hqr' := hqr.index_le
    rw [hpq.foundUntil_append hqr.toLater] at hd
    -- on the second part of the way the trace already has the texts of the first one
    rcases List.mem_append.1 hd with hd | hd
    · obtain ⟨k, hle, hle', hcomplains⟩ := hpq.complains d hd
      exact ⟨k, hle, by omega, hcomplains⟩
    · obtain ⟨k, hle, hle', hcomplains⟩ := hqr.complains d hd
      refine ⟨k, by omega, hle', fun expected found trace hcause => ?_⟩
      have htold := hcomplains expected found trace hcause
      rwa [hpq.traced_append hle, hpq.tokenAt_funext] at htold

theorem traces_refl (p : Parser) : Traces p p where
  toLater := later_refl p
  traced_eq := by rw [textsBetween_self, List.append_nil]
  complains := by
    rw [foundUntil_eq_nil rfl]
    exact List.forall_mem_nil _

/-- Moving on adds the text of the token that is current then. -/
theorem traces_advance (p : Parser) : Traces p p.advance where
  toLater := later_advance p
  traced_eq := by
    rw [advance_index, textsBetween_succ]
    exact toList_traced_traceText _ _
  complains := by
    rw [foundUntil_eq_nil p.advance_diagnostics]
    exact List.forall_mem_nil _

/-- A diagnostic leaves the trace alone. -/
theorem traces_report {cause : Cause} {t : Token} (hlater : Later p (p.report cause t))
    (hcomplains : p.Complains p.index ⟨cause, t.span.start⟩) : Traces p (p.report cause t) where
  toLater := hlater
  traced_eq := (traces_refl p).traced_eq
  complains d hd := by
    rw [foundUntil_report, List.mem_singleton] at hd
    exact ⟨p.index, le_rfl, le_rfl, hd ▸ hcomplains⟩

/-- A diagnostic of another kind says nothing of the trace. -/
theorem complains_of_ne {k : Nat} {position : Position} {cause : Cause}
    (h : ∀ expected found trace, cause ≠ .unexpectedToken expected found trace) :
    p.Complains k ⟨cause, position⟩ :=
  fun expected found trace hcause => absurd hcause (h expected found trace)

/-- An unexpected token is reported with the trace of the parser. -/
theorem complains_unexpected {t : Token} (expected : Kind)
    (ht : t = p.peek ∨ t = p.current ∧ t.kind = .eof) :
    p.Complains p.index ⟨p.unexpected expected t, t.span.start⟩ := by
  rintro _ _ _ ⟨⟩
  exact ⟨by rw [textsBetween_self, List.append_nil]; rfl, t, ht, rfl, rfl⟩

/-- **The trace goes on along every step.** -/
theorem stepRelation_traces : StepRelation Traces where
  refl := traces_refl
  trans := Traces.trans
  advance := traces_advance
  missing p kind h :=
    traces_report (stepRelation_later.missing p kind h) (complains_unexpected kind (.inl rfl))
  unclosed p h :=
    traces_report (stepRelation_later.unclosed p h) (complains_unexpected _ (.inr ⟨rfl, h⟩))
  noExpression p h :=
    traces_report (stepRelation_later.noExpression p h) (complains_of_ne (by simp))
  invalidInteger p h hv :=
    traces_report (stepRelation_later.invalidInteger p h hv) (complains_of_ne (by simp))
  tooDeep p := traces_report (stepRelation_later.tooDeep p) (complains_of_ne (by simp))
  nested p q hdepth h :=
    { toLater := stepRelation_later.nested p q hdepth h.toLater
      traced_eq := h.traced_eq
      complains := h.complains }

/-! ### Where the trace begins -/

/-- **The trace begins at the token with the number `clear`** and goes up to the current one. -/
structure TracedFrom (clear : Nat) (p : Parser) : Prop where
  /-- The parser does not stand before that token. -/
  le_index : clear ≤ p.index
  /-- The trace has the texts from there on. -/
  traced_eq : p.traced.toList = textsBetween p.tokenAt clear (p.index + 1)

theorem TracedFrom.trace_eq (h : p.TracedFrom clear) :
    p.trace = " ".intercalate (textsBetween p.tokenAt clear (p.index + 1)) := by
  rw [trace, h.traced_eq]

/-- From there on the trace goes on. -/
theorem TracedFrom.append (h : p.TracedFrom clear) {k : Nat} (hk : p.index ≤ k) :
    p.traced.toList ++ textsBetween p.tokenAt (p.index + 1) (k + 1) =
      textsBetween p.tokenAt clear (k + 1) := by
  have hle := h.le_index
  rw [h.traced_eq, textsBetween_append (by omega) (by omega)]

/-- Along an action the trace keeps its beginning. -/
theorem TracedFrom.traces (h : p.TracedFrom clear) (hpq : Traces p q) : q.TracedFrom clear where
  le_index := Nat.le_trans h.le_index hpq.index_le
  traced_eq := by rw [hpq.traced_eq, h.append hpq.index_le, hpq.tokenAt_funext]

/-- **Only the current token has been read** since the last complete statement. -/
def Fresh (p : Parser) : Prop :=
  p.traced = if p.current.text.isEmpty then #[] else #[p.current.text]

theorem fresh_traceText (h : p.traced = #[]) : (p.traceText p.current.text).Fresh := by
  unfold Fresh traceText
  by_cases hempty : p.current.text.isEmpty
  · rw [if_pos hempty, if_pos hempty, h]
  · rw [if_neg hempty, h]
    exact (if_neg hempty).symm

/-- A parser that has not begun is fresh. -/
theorem fresh_ofTokens (g : Grammar) (ts : List Token) : (ofTokens g ts).Fresh :=
  fresh_traceText rfl

/-- So is one that has moved on behind a complete statement. -/
theorem fresh_advance_clearTrace (p : Parser) : p.clearTrace.advance.Fresh :=
  fresh_traceText rfl

/-- The trace of a fresh parser begins at its current token. -/
theorem Fresh.tracedFrom (h : p.Fresh) : p.TracedFrom p.index where
  le_index := le_rfl
  traced_eq := by
    rw [textsBetween_succ, show p.tokenAt p.index = p.current from rfl, h]
    split <;> rfl

/-- At first the trace begins at the first token. -/
theorem tracedFrom_ofTokens (g : Grammar) (ts : List Token) : (ofTokens g ts).TracedFrom 0 := by
  have hindex : (ofTokens g ts).index = 0 := by simp [ofTokens]
  have htraced := (fresh_ofTokens g ts).tracedFrom
  rwa [hindex] at htraced

/-- Behind a trace that was emptied it begins at the next token. -/
theorem tracedFrom_advance_clearTrace (p : Parser) :
    p.clearTrace.advance.TracedFrom (p.index + 1) := by
  have htraced := (fresh_advance_clearTrace p).tracedFrom
  rwa [advance_index] at htraced

/-- No text is left of the end of the source. -/
def Silent (p : Parser) : Prop :=
  ∀ i, (p.tokenAt i).kind = .eof → (p.tokenAt i).text = ""

theorem Silent.later (h : p.Silent) (hpq : Later p q) : q.Silent := by
  intro i
  rw [hpq.tokenAt_eq]
  exact h i

/-- **An unexpected token is reported with the texts from the beginning of the trace up to it.** -/
theorem TracedFrom.unexpected (h : p.TracedFrom clear) (hsilent : p.Silent) (hpq : Traces p q)
    (hd : d ∈ p.foundUntil q) {expected found : Kind} {trace : String}
    (hcause : d.cause = .unexpectedToken expected found trace) :
    ∃ m, p.index ≤ m ∧ m ≤ q.index + 1 ∧ found = (p.tokenAt m).kind ∧
      d.position = (p.tokenAt m).span.start ∧
      trace = " ".intercalate (textsBetween p.tokenAt clear m) := by
  obtain ⟨k, hle, hle', hcomplains⟩ := hpq.complains d hd
  obtain ⟨rfl, t, ht, rfl, hposition⟩ := hcomplains expected found trace hcause
  rw [h.append hle]
  rcases ht with rfl | ⟨rfl, heof⟩
  · exact ⟨k + 1, by omega, by omega, rfl, hposition, rfl⟩
  · -- the end of the source adds nothing to the trace
    refine ⟨k, hle, by omega, rfl, hposition, ?_⟩
    have hclear := h.le_index
    rw [← textsBetween_append (by omega : clear ≤ k) (Nat.le_succ k), textsBetween_succ, hsilent k heof,
      if_pos (by rfl), List.append_nil]

end Parser

end MonkeySyntax
