import Mathlib.Data.List.Forall2
import MonkeySyntax.Proofs.Parsing.StepRelation

/-! # Two parsers in step

Where two sources have tokens of the same kinds and texts, their parsers do the same: they move on
together, report the same causes at corresponding tokens and build trees that are alike. The one
source may have further tokens before those that correspond.

* `Diagnostic.Echoes L d e` — two diagnostics with one cause at tokens that `L` relates.
* **`Parser.InStep L k p q`** — `p` has come as far as `q` in a source that has `k` tokens more before
  those that correspond.
* `Parser.InStep.current`, `Parser.InStep.advance`, `Parser.InStep.report`, … — what both parsers see,
  and that they stay in step when they do the same.
* **`ParseM.InStep L k V m n`** — the actions `m` and `n` keep two parsers in step; they give values that
  `V` relates, or they both fail.
* `InStep.bind`, `InStep.attempt`, `InStep.collectWhile`, … — how such actions are put together. -/

namespace MonkeySyntax

open Parsing ParseM

/-- **Two diagnostics say the same** of two tokens that are related. -/
structure Diagnostic.Echoes (L : Token → Token → Prop) (d e : Diagnostic) : Prop where
  /-- They have one cause. -/
  cause_eq : d.cause = e.cause
  /-- They stand at two tokens that are related. -/
  exists_token : ∃ t u, L t u ∧ d.position = t.span.start ∧ e.position = u.span.start

/-- What is said of the same tokens is the same. -/
theorem Diagnostic.Echoes.eq {d e : Diagnostic} (h : d.Echoes Eq e) : d = e := by
  obtain ⟨hcause, t, u, htu, hd, he⟩ := h
  rw [← htu] at he
  cases d
  cases e
  rw [Diagnostic.mk.injEq]
  exact ⟨hcause, hd.trans he.symm⟩

namespace Parser

/-- **The two parsers are in step**: behind the first `k` tokens of the one source there are tokens
that correspond to those of the other one, and the parsers have come equally far among them. -/
structure InStep (L : Token → Token → Prop) (k : Nat) (p q : Parser) : Prop where
  /-- Tokens that correspond are alike. -/
  alike : ∀ {t u}, L t u → t.alike u = true
  /-- The tokens behind the first ones correspond. -/
  tokenAt : ∀ i, L (p.tokenAt (k + i)) (q.tokenAt i)
  /-- The one source has that many tokens more. -/
  size_eq : p.tokens.size = k + q.tokens.size
  /-- Both parsers stand at the same of the tokens that correspond. -/
  index_eq : p.index = k + q.index
  /-- They have the same trace. -/
  traced_eq : p.traced = q.traced
  /-- They have as many open expressions. -/
  depth_eq : p.depth = q.depth
  /-- They follow the same rules. -/
  grammar_eq : p.grammar = q.grammar
  /-- They have reported the same. -/
  diagnostics : List.Forall₂ (Diagnostic.Echoes L) p.diagnostics.toList q.diagnostics.toList

namespace InStep

variable {L : Token → Token → Prop} {k : Nat} {p q : Parser}

/-- The current tokens correspond. -/
theorem current (h : InStep L k p q) : L p.current q.current := by
  have htoken := h.tokenAt q.index
  rwa [← h.index_eq] at htoken

/-- So do the tokens after them. -/
theorem peek (h : InStep L k p q) : L p.peek q.peek := by
  have htoken := h.tokenAt (q.index + 1)
  rwa [← Nat.add_assoc, ← h.index_eq] at htoken

theorem current_kind (h : InStep L k p q) : p.current.kind = q.current.kind :=
  (Token.alike_iff.1 (h.alike h.current)).1

theorem peek_kind (h : InStep L k p q) : p.peek.kind = q.peek.kind :=
  (Token.alike_iff.1 (h.alike h.peek)).1

theorem current_text (h : InStep L k p q) : p.current.text = q.current.text :=
  (Token.alike_iff.1 (h.alike h.current)).2

theorem remaining_eq (h : InStep L k p q) : p.remaining = q.remaining := by
  unfold remaining
  rw [h.size_eq, h.index_eq]
  omega

theorem levels_eq (h : InStep L k p q) : p.levels = q.levels := by
  rw [levels, levels, h.grammar_eq, h.depth_eq]

/-- An unexpected token is described in the same words. -/
theorem unexpected_eq (h : InStep L k p q) (kind : Kind) {t u : Token} (htu : L t u) :
    p.unexpected kind t = q.unexpected kind u := by
  have hkind := (Token.alike_iff.1 (h.alike htu)).1
  rw [unexpected, unexpected, trace, trace, h.traced_eq, hkind]

/-- The same operator is ahead. -/
theorem operatorAhead?_eq (h : InStep L k p q) (power : Power) :
    p.operatorAhead? power = q.operatorAhead? power := by
  rw [operatorAhead?, operatorAhead?, h.grammar_eq, h.peek_kind]

theorem traceText (h : InStep L k p q) (text : String) :
    InStep L k (p.traceText text) (q.traceText text) := by
  unfold Parser.traceText
  by_cases hempty : text.isEmpty
  · rwa [if_pos hempty, if_pos hempty]
  · rw [if_neg hempty, if_neg hempty]
    exact { h with traced_eq := by rw [h.traced_eq] }

/-- **Both parsers move on.** -/
theorem advance (h : InStep L k p q) : InStep L k p.advance q.advance := by
  have hmoved : InStep L k { p with index := p.index + 1 } { q with index := q.index + 1 } :=
    { h with index_eq := by rw [h.index_eq, Nat.add_assoc] }
  have htext : p.peek.text = q.peek.text := (Token.alike_iff.1 (h.alike h.peek)).2
  unfold Parser.advance
  rw [htext]
  exact hmoved.traceText _

/-- **Both parsers report the same** at tokens that correspond. -/
theorem report (h : InStep L k p q) (cause : Cause) {t u : Token} (htu : L t u) :
    InStep L k (p.report cause t) (q.report cause u) := by
  refine { h with diagnostics := ?_ }
  have hecho : Diagnostic.Echoes L ⟨cause, t.span.start⟩ ⟨cause, u.span.start⟩ :=
    ⟨rfl, t, u, htu, rfl, rfl⟩
  unfold Parser.report
  rw [Array.toList_push, Array.toList_push]
  exact List.rel_append h.diagnostics (.cons hecho .nil)

theorem clearTrace (h : InStep L k p q) : InStep L k p.clearTrace q.clearTrace :=
  { h with traced_eq := rfl }

theorem withDepth (h : InStep L k p q) {m n : Nat} (hmn : m = n) :
    InStep L k (p.withDepth m) (q.withDepth n) :=
  { h with depth_eq := hmn }

end InStep

end Parser

namespace ParseM

variable {α β γ δ : Type} {L : Token → Token → Prop} {k : Nat} {V : α → β → Prop} {W : γ → δ → Prop}
  {p q : Parser}

/-- **Two outcomes agree**: the values are related, or there are none, and the parsers are in step. -/
structure Agree (L : Token → Token → Prop) (k : Nat) (V : α → β → Prop) (x : Option α × Parser)
    (y : Option β × Parser) : Prop where
  /-- The values are related. -/
  value : Option.Rel V x.1 y.1
  /-- The parsers are in step. -/
  parser : Parser.InStep L k x.2 y.2

/-- **The actions stay in step**: from parsers in step they come to outcomes that agree. -/
def InStep (L : Token → Token → Prop) (k : Nat) (V : α → β → Prop) (m : ParseM α) (n : ParseM β) :
    Prop :=
  ∀ p q, Parser.InStep L k p q → Agree L k V (m.exec p) (n.exec q)

/-- Behind outcomes that agree there is one of two sequences that stay in step. -/
theorem Agree.bind {m : ParseM α} {n : ParseM β} {f : α → ParseM γ} {g : β → ParseM δ}
    (h : Agree L k V (m.exec p) (n.exec q)) (hf : ∀ a b, V a b → InStep L k W (f a) (g b)) :
    Agree L k W ((m >>= f).exec p) ((n >>= g).exec q) := by
  obtain ⟨hvalue, hparser⟩ := h
  rcases hm : m.exec p with ⟨_ | a, p'⟩
  · rcases hn : n.exec q with ⟨_ | b, q'⟩
    · rw [hm, hn] at hparser
      rw [exec_bind_none hm, exec_bind_none hn]
      exact ⟨.none, hparser⟩
    · rw [hm, hn] at hvalue
      cases hvalue
  · rcases hn : n.exec q with ⟨_ | b, q'⟩
    · rw [hm, hn] at hvalue
      cases hvalue
    · rw [hm, hn] at hvalue hparser
      rw [exec_bind_some hm, exec_bind_some hn]
      cases hvalue with
      | some hab => exact hf a b hab p' q' hparser

/-- **Sequences stay in step** when their parts do. -/
theorem InStep.bind {m : ParseM α} {n : ParseM β} {f : α → ParseM γ} {g : β → ParseM δ}
    (h : InStep L k V m n) (hf : ∀ a b, V a b → InStep L k W (f a) (g b)) :
    InStep L k W (m >>= f) (n >>= g) :=
  fun p q hpq => (h p q hpq).bind hf

/-- Actions that look at the parser first may use what both parsers see there. -/
theorem inStep_get_bind {f : Parser → ParseM γ} {g : Parser → ParseM δ}
    (h : ∀ p q, Parser.InStep L k p q → Agree L k W ((f p).exec p) ((g q).exec q)) :
    InStep L k W (get >>= f) (get >>= g) := by
  intro p q hpq
  rw [exec_bind_some (exec_get p), exec_bind_some (exec_get q)]
  exact h p q hpq

theorem inStep_pure {a : α} {b : β} (h : V a b) : InStep L k V (pure a) (pure b) :=
  fun _ _ hpq => ⟨.some h, hpq⟩

theorem inStep_getM {x : Option α} {y : Option β} (h : Option.Rel V x y) :
    InStep L k V (x.getM : ParseM α) (y.getM : ParseM β) := by
  cases h with
  | some h => exact inStep_pure h
  | none => exact fun _ _ hpq => ⟨.none, hpq⟩

theorem inStep_advance : InStep L k (fun _ _ => True) advance advance :=
  fun _ _ hpq => ⟨.some trivial, hpq.advance⟩

theorem inStep_currentToken : InStep L k (Token.alike · · = true) currentToken currentToken :=
  fun _ _ hpq => ⟨.some (hpq.alike hpq.current), hpq⟩

theorem peekIs_eq (h : Parser.InStep L k p q) (kind : Kind) : peekIs kind p = peekIs kind q := by
  rw [peekIs, peekIs, h.peek_kind]

theorem currentIs_eq (h : Parser.InStep L k p q) (kind : Kind) :
    currentIs kind p = currentIs kind q := by
  rw [currentIs, currentIs, h.current_kind]

theorem inStep_advanceIf {condition : Parser → Bool}
    (hc : ∀ p q, Parser.InStep L k p q → condition p = condition q) :
    InStep L k (fun _ _ => True) (advanceIf condition) (advanceIf condition) := by
  intro p q hpq
  rw [exec_advanceIf, exec_advanceIf, hc p q hpq]
  by_cases h : condition q = true
  · rw [if_pos h, if_pos h]
    exact ⟨.some trivial, hpq.advance⟩
  · rw [if_neg h, if_neg h]
    exact ⟨.some trivial, hpq⟩

/-- The same is reported at tokens that correspond. -/
theorem agree_reject (h : Parser.InStep L k p q) (cause : Cause) {t u : Token} (htu : L t u) :
    Agree L k V ((reject cause t : ParseM α).exec p) ((reject cause u : ParseM β).exec q) :=
  ⟨.none, h.report cause htu⟩

/-- A required token is read by both or missed by both. -/
theorem inStep_expect (kind : Kind) :
    InStep L k (Token.alike · · = true) (expect kind) (expect kind) := by
  intro p q hpq
  rw [exec_expect, exec_expect, hpq.peek_kind]
  by_cases h : q.peek.kind = kind
  · rw [if_pos h, if_pos h]
    exact ⟨.some (hpq.alike hpq.peek), hpq.advance⟩
  · rw [if_neg h, if_neg h, hpq.unexpected_eq kind hpq.peek]
    exact ⟨.none, hpq.report _ hpq.peek⟩

theorem InStep.attempt {m : ParseM α} {n : ParseM β} (h : InStep L k V m n) :
    InStep L k (Option.Rel V) (attempt m) (attempt n) := by
  intro p q hpq
  obtain ⟨hvalue, hparser⟩ := h p q hpq
  exact ⟨.some hvalue, hparser⟩

theorem InStep.map {m : ParseM α} {n : ParseM β} {f : α → γ} {g : β → δ} (h : InStep L k V m n)
    (hf : ∀ a b, V a b → W (f a) (g b)) : InStep L k W (f <$> m) (g <$> n) := by
  rw [← bind_pure_comp, ← bind_pure_comp]
  exact h.bind fun a b hab => inStep_pure (hf a b hab)

/-- An expression is opened by both or by neither. -/
theorem InStep.nested {m : ParseM α} {n : ParseM β} (h : InStep L k V m n) :
    InStep L k V (nested m) (nested n) := by
  intro p q hpq
  rw [exec_nested, exec_nested]
  have hlimits : p.depth < p.grammar.depthLimit ↔ q.depth < q.grammar.depthLimit := by
    rw [hpq.depth_eq, hpq.grammar_eq]
  by_cases hlimit : q.depth < q.grammar.depthLimit
  · rw [if_pos hlimit, if_pos (hlimits.2 hlimit)]
    have hopened := hpq.withDepth (congrArg (· + 1) hpq.depth_eq)
    obtain ⟨hvalue, hparser⟩ := h _ _ hopened
    exact ⟨hvalue, hparser.withDepth (congrArg (· - 1) hparser.depth_eq)⟩
  · rw [if_neg hlimit, if_neg (hlimits.not.2 hlimit), hpq.grammar_eq]
    exact ⟨.none, hpq.report _ hpq.current⟩

/-! ### Loops -/

/-- **Loops stay in step**: they have as many rounds, and these give values that are related. -/
theorem InStep.collectWhile {condition : Parser → Bool} {item : ParseM α} {other : ParseM β}
    (h : InStep L k V item other)
    (hc : ∀ p q, Parser.InStep L k p q → condition p = condition q) :
    InStep L k (List.Forall₂ V) (collectWhile condition item) (collectWhile condition other) := by
  have hwithin (n : Nat) : InStep L k (List.Forall₂ V) (collectWithin condition item n)
      (collectWithin condition other n) := by
    induction n with
    | zero => exact inStep_pure .nil
    | succ n ih =>
      apply inStep_get_bind
      intro p q hpq
      rw [hc p q hpq]
      by_cases hq : condition q = true
      · rw [if_pos hq, if_pos hq]
        apply (h p q hpq).bind
        intro a b hab
        apply ih.bind
        intro rest others hrest
        exact inStep_pure (.cons hab hrest)
      · rw [if_neg hq, if_neg hq]
        exact inStep_pure .nil p q hpq
  apply inStep_get_bind
  intro p q hpq
  rw [hpq.remaining_eq]
  exact hwithin q.remaining p q hpq

theorem inStep_skipSemicolons : InStep L k (fun _ _ => True) skipSemicolons skipSemicolons := by
  apply (inStep_advance.collectWhile fun p q hpq => peekIs_eq hpq .semicolon).bind
  intro _ _ _
  exact inStep_pure trivial

end ParseM

end MonkeySyntax
