import MonkeySyntax.Proofs.Parsing.GatheringSource

/-! # Diagnostics tell the truth in the order of the source

Each diagnostic speaks of one token of the source, and what it says of that token is so. Since a
token is reported only while it is the current one or the one after it, and the parser moves on
before it looks at anything further, the diagnostics come in the order of these tokens.

* **`Cause.Tells g t cause`** — what a cause says is true of the token `t` under the grammar `g`.
* **`Parser.Notes p q notes`** — the diagnostics that were added from `p` to `q`, each with the place of
  its token.
* **`Parser.Gathers.notes`** — the notes along any way, by induction on its steps.
* **`parseAs_diagnostics_tell`** — the diagnostics of a source are true and in order. -/

namespace MonkeySyntax

open Parsing ParseM

/-- **What a cause says is true** of a token. -/
def Cause.Tells (g : Grammar) (t : Token) : Cause → Prop
  | .unexpectedToken expected found _ => found = t.kind ∧ expected ≠ found
  | .noExpression kind => kind = t.kind ∧ g.prefixRule? kind = none
  | .invalidInteger literal =>
    t.kind = .integer ∧ literal = t.text ∧ (∀ c ∈ literal.toList, isDigit c = true) ∧
      integerBound ≤ digitsValue literal.toList
  | .nestingTooDeep limit => limit = g.depthLimit

/-- **A diagnostic tells of a token**: it stands there and its cause is true of it. -/
structure Diagnostic.Tells (g : Grammar) (t : Token) (d : Diagnostic) : Prop where
  /-- The diagnostic stands where the token begins. -/
  position_eq : d.position = t.span.start
  /-- Its cause is true of the token. -/
  cause : d.cause.Tells g t

/-- A number without a value is too large. -/
theorem integerBound_le_of_spelt {t : Token} (h : t.Spelt) (hkind : t.kind = .integer)
    (hvalue : integerValue? t.text = none) :
    (∀ c ∈ t.text.toList, isDigit c = true) ∧ integerBound ≤ digitsValue t.text.toList := by
  obtain ⟨hne, hdigits⟩ := Token.Spelt.digits h hkind
  refine ⟨hdigits, ?_⟩
  by_contra hlt
  rw [integerValue?_of_digits hne hdigits, if_pos (Nat.lt_of_not_le hlt)] at hvalue
  exact absurd hvalue (by simp)

namespace Parser

variable {p q : Parser} {items : List Item}

/-- **The notes on a way**: the diagnostics that were added, each with the place of the token that it
tells of. -/
structure Notes (p q : Parser) (notes : List (Nat × Diagnostic)) : Prop where
  /-- The diagnostics are added in this order. -/
  diagnostics_eq : q.diagnostics.toList = p.diagnostics.toList ++ notes.map Prod.snd
  /-- Each tells of its token. -/
  tells : ∀ n ∈ notes, n.2.Tells p.grammar (p.tokenAt n.1)
  /-- The token lies on the way or right behind it. -/
  between : ∀ n ∈ notes, p.index ≤ n.1 ∧ n.1 ≤ q.index + 1
  /-- The places never go back. -/
  sorted : notes.Pairwise (·.1 ≤ ·.1)

theorem notes_nil (p : Parser) : Notes p p [] where
  diagnostics_eq := by rw [List.map_nil, List.append_nil]
  tells := by simp
  between := by simp
  sorted := List.Pairwise.nil

/-- What may be reported at the current token is true of it. -/
theorem Faults.tells {cause : Cause} (h : p.Faults cause) (hp : p.Standard) (hspelt : p.Spelt) :
    cause.Tells p.grammar p.current := by
  cases h with
  | noExpression h => exact ⟨rfl, h⟩
  | invalidInteger h hvalue =>
    have hkind : p.current.kind = .integer :=
      Grammar.kind_of_standardPrefixRule? (hp.prefixRule?_eq ▸ h)
    have hcurrent : p.current.Spelt := hspelt.current (by simp [hkind])
    obtain ⟨hdigits, hbound⟩ := integerBound_le_of_spelt hcurrent hkind hvalue
    exact ⟨hkind, rfl, hdigits, hbound⟩
  | tooDeep => exact rfl
  | unclosed h =>
    refine ⟨rfl, ?_⟩
    rw [h]
    decide

/-- A report at the current token. -/
theorem Faults.notes {cause : Cause} (h : p.Faults cause) (hp : p.Standard) (hspelt : p.Spelt) :
    Notes p (p.report cause p.current) [(p.index, ⟨cause, p.current.span.start⟩)] where
  diagnostics_eq := by simp [report]
  tells := by
    intro n hn
    rw [List.mem_singleton.1 hn]
    exact ⟨rfl, h.tells hp hspelt⟩
  between := by
    intro n hn
    rw [List.mem_singleton.1 hn]
    exact ⟨le_rfl, Nat.le_succ _⟩
  sorted := List.pairwise_singleton _ _

/-- A report at the token after the current one comes behind all notes so far. -/
theorem Notes.missing {notes : List (Nat × Diagnostic)} {kind : Kind} (hnotes : Notes p q notes)
    (h : Later p q) (hkind : q.peek.kind ≠ kind) :
    Notes p (q.report (q.unexpected kind q.peek) q.peek)
      (notes ++ [(q.index + 1, ⟨q.unexpected kind q.peek, q.peek.span.start⟩)]) := by
  have hindex := h.index_le
  have hpeek : p.tokenAt (q.index + 1) = q.peek := (h.tokenAt_eq _).symm
  refine ⟨?_, ?_, ?_, ?_⟩
  · rw [List.map_append, ← List.append_assoc, ← hnotes.diagnostics_eq]
    simp [report]
  · refine List.forall_mem_append.2 ⟨hnotes.tells, fun n hn => ?_⟩
    rw [List.mem_singleton.1 hn, hpeek]
    exact ⟨rfl, rfl, hkind.symm⟩
  · refine List.forall_mem_append.2 ⟨hnotes.between, fun n hn => ?_⟩
    rw [List.mem_singleton.1 hn]
    exact ⟨by omega, le_rfl⟩
  · apply List.pairwise_append.2
    refine ⟨hnotes.sorted, List.pairwise_singleton _ _, fun n hn m hm => ?_⟩
    rw [List.mem_singleton.1 hm]
    exact (hnotes.between n hn).2

/-- The notes on a way that goes on at the next token. -/
theorem Notes.next {r : Parser} {notes others : List (Nat × Diagnostic)} (hnotes : Notes p q notes)
    (hothers : Notes q.advance r others) (h : Later p q) (hr : Later q.advance r) :
    Notes p r (notes ++ others) := by
  have hindex := h.index_le
  have hindex' := hr.index_le
  have hadvance : Later p q.advance := h.trans (later_advance q)
  rw [advance_index] at hindex'
  refine ⟨?_, ?_, ?_, ?_⟩
  · rw [hothers.diagnostics_eq, advance_diagnostics, hnotes.diagnostics_eq, List.map_append,
      List.append_assoc]
  · refine List.forall_mem_append.2 ⟨hnotes.tells, fun n hn => ?_⟩
    have htells := hothers.tells n hn
    rwa [hadvance.grammar_eq, hadvance.tokenAt_eq] at htells
  · refine List.forall_mem_append.2 ⟨fun n hn => ?_, fun n hn => ?_⟩
    · obtain ⟨hlow, hhigh⟩ := hnotes.between n hn
      omega
    · obtain ⟨hlow, hhigh⟩ := hothers.between n hn
      rw [advance_index] at hlow
      omega
  · apply List.pairwise_append.2
    refine ⟨hnotes.sorted, hothers.sorted, fun n hn m hm => ?_⟩
    -- the notes before the step end where those behind it begin
    have hhigh := (hnotes.between n hn).2
    have hlow := (hothers.between m hm).1
    rw [advance_index] at hlow
    omega

/-- **The diagnostics on any way are true and in order.** -/
theorem Gathers.notes (h : Gathers p items q) (hp : p.Standard) (hspelt : p.Spelt) :
    ∃ notes, Notes p q notes := by
  induction h with
  | stay p => exact ⟨[], notes_nil p⟩
  | take => exact ⟨[], notes_nil _⟩
  | fault hfault => exact ⟨_, hfault.notes hp hspelt⟩
  | missing hway hkind ih =>
    obtain ⟨notes, hnotes⟩ := ih hp hspelt
    exact ⟨_, hnotes.missing hway.later hkind⟩
  | next hway hnext ih ih' =>
    have hadvance := hway.later.trans (later_advance _)
    obtain ⟨notes, hnotes⟩ := ih hp hspelt
    obtain ⟨others, hothers⟩ := ih' (hp.later hadvance) (hspelt.later hadvance)
    exact ⟨_, hnotes.next hothers hway.later hnext.later⟩
  | drop _ _ ih => exact ih hp hspelt
  | clear _ ih =>
    obtain ⟨notes, hnotes⟩ := ih hp hspelt
    exact ⟨notes, hnotes.diagnostics_eq, hnotes.tells, hnotes.between, hnotes.sorted⟩
  | nested _ _ ih =>
    obtain ⟨notes, hnotes⟩ := ih (hp.withDepth _) hspelt
    exact ⟨notes, hnotes.diagnostics_eq, hnotes.tells, hnotes.between, hnotes.sorted⟩

end Parser

/-- **Diagnostics tell the truth and come in the order of the source.** Each one stands where some token
of the source begins, and what it says of that token is so: a token that was found is of the kind that
is named, and not of the one that was expected; a kind of which it is said that it starts no
expression has no rule to start one; a number without a value is a run of digits that stands for at
least 2^63; and the limit on nesting is the one of the language, which is 256. No diagnostic stands
before one that was recorded earlier. -/
theorem parseAs_diagnostics_tell (file source : String)
    (hfits : byteLength source.toList < offsetBound) :
    (∀ d ∈ (parseAs file source).diagnostics, ∃ t ∈ tokenize source file, d.Tells .standard t) ∧
      (parseAs file source).diagnostics.Pairwise
        (fun d e => d.position.offset.toNat ≤ e.position.offset.toNat) := by
  have hsorted := pairwise_start_tokenize file hfits
  obtain ⟨ts, t, q, hts, -, hp, hspelt, hway, hdiagnostics⟩ := exists_gathers file source
  obtain ⟨notes, hnotes⟩ := hway.notes hp hspelt
  have hall : (parseAs file source).diagnostics = notes.map Prod.snd := by
    rw [hdiagnostics, hnotes.diagnostics_eq, Parser.diagnostics_ofTokens, List.nil_append]
  rw [hall, hts]
  constructor
  · intro d hd
    obtain ⟨n, hn, rfl⟩ := List.mem_map.1 hd
    have htells := hnotes.tells n hn
    rw [Parser.grammar_ofTokens] at htells
    exact ⟨_, Parser.tokenAt_mem .standard ts t n.1, htells⟩
  · apply List.pairwise_map.2
    apply hnotes.sorted.imp_of_mem
    intro n m hn hm hle
    -- the places are in order, and so are the tokens that stand there
    rw [(hnotes.tells n hn).position_eq, (hnotes.tells m hm).position_eq]
    exact Parser.start_tokenAt_le .standard (hts ▸ hsorted) hle

/-- A number that is too large stands where a name is expected, and an operand is missing at the end. -/
theorem parseAs_diagnostics_tell_binding :
    (parseAs defaultFileName "let 9223372036854775808 -").diagnostics.map (·.cause) =
        [.unexpectedToken .identifier .integer "let",
          .invalidInteger "9223372036854775808", .noExpression .eof] ∧
      (∀ d ∈ (parseAs defaultFileName "let 9223372036854775808 -").diagnostics,
        ∃ t ∈ tokenize "let 9223372036854775808 -" defaultFileName, d.Tells .standard t) ∧
      (parseAs defaultFileName "let 9223372036854775808 -").diagnostics.Pairwise
        (fun d e => d.position.offset.toNat ≤ e.position.offset.toNat) := by
  obtain ⟨htell, hsorted⟩ := parseAs_diagnostics_tell defaultFileName "let 9223372036854775808 -"
    (by decide +kernel)
  exact ⟨by decide +kernel, htell, hsorted⟩

end MonkeySyntax
