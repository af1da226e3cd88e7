import MonkeySyntax.Proofs.Grammar.Acceptance
import MonkeySyntax.Proofs.Parsing.Course

/-! # How far a course goes

A rule moves on without looking only behind a token that is not the end of the source. So a course
stops at the end, except that every block that is open there moves on once more; and since each block
has a brace of its own, it goes no further beyond the end than it started before it.

* **`Parser.BeforeEnd`** — the current token is not the end of the source: where a rule may move on.
* **`Parser.EndsAt n p`** — the source of the parser ends at the token with the number `n`.
* **`Reach n slack p q`**, `Course.reach` — how far a course goes.
* **`Course.shallow`** — no more expressions are open than tokens have been read. -/

namespace MonkeySyntax

/-- The current token is **not the end** of the source. -/
def Parser.BeforeEnd (p : Parser) : Prop :=
  p.current.kind ≠ .eof

theorem Parser.beforeEnd_of_kind (p : Parser) (h : p.current.kind ≠ .eof) : p.BeforeEnd := h

/-! ### The end of the source -/

/-- The parser follows the rules of the language, and **its source ends** at the token with the number
`n` and not before. -/
structure Parser.EndsAt (n : Nat) (p : Parser) : Prop where
  /-- The rules are those of the language. -/
  standard : p.Standard
  /-- The source ends there. -/
  kind_eq_eof_iff : ∀ i, (p.tokenAt i).kind = .eof ↔ n ≤ i

namespace Parser.EndsAt

variable {n : Nat} {p q : Parser}

theorem later (hp : p.EndsAt n) (h : Later p q) : q.EndsAt n :=
  ⟨hp.standard.later h, fun i => by rw [h.tokenAt_eq, hp.kind_eq_eof_iff]⟩

theorem advance (hp : p.EndsAt n) : p.advance.EndsAt n :=
  hp.later (later_advance p)

theorem withDepth (hp : p.EndsAt n) (depth : Nat) : (p.withDepth depth).EndsAt n :=
  ⟨hp.standard.withDepth depth, hp.kind_eq_eof_iff⟩

theorem lt_of_beforeEnd (hp : p.EndsAt n) (h : p.BeforeEnd) : p.index < n :=
  Nat.not_le.1 fun hle => h ((hp.kind_eq_eof_iff _).2 hle)

/-- What comes next is before the end, if it is of some other kind. -/
theorem lt_of_peek (hp : p.EndsAt n) {kind : Kind} (hkind : kind ≠ .eof) (h : p.peek.kind = kind) :
    p.index + 1 < n :=
  Nat.not_le.1 fun hle => hkind (h.symm.trans ((hp.kind_eq_eof_iff _).2 hle))

/-- An operator that comes next is before the end. -/
theorem lt_of_operator (hp : p.EndsAt n) {power : Power} {op : Operator}
    (h : p.operatorAhead? power = some op) : p.index + 1 < n := by
  have hkind : p.peek.kind ≠ .eof := by
    intro heof
    rw [operatorAhead?, hp.standard.operator?_eq, heof] at h
    exact absurd h (by simp [Grammar.standardOperator?])
  exact hp.lt_of_peek hkind rfl

end Parser.EndsAt

/-- The tokens of a source end with the last of them. -/
theorem Parser.endsAt_ofTokens {limit : Nat} {ts : List Token} {t : Token}
    (hts : ∀ u ∈ ts, u.kind ≠ .eof) (ht : t.kind = .eof) :
    (ofTokens (.limited limit) (ts ++ [t])).EndsAt ts.length := by
  refine ⟨standard_ofTokens ht, fun i => ?_⟩
  rw [tokenAt_ofTokens]
  rcases Nat.lt_trichotomy i ts.length with hi | rfl | hi
  · rw [List.getElem?_append_left hi, List.getElem?_eq_getElem hi, Option.getD_some]
    exact iff_of_false (hts _ (List.getElem_mem hi)) (by omega)
  · simp [ht]
  · rw [List.getElem?_eq_none (by simp; omega), Option.getD_none]
    exact iff_of_true ht (by omega)

/-- **The number of tokens** of a source, without its end. -/
def sourceLength (file source : String) : Nat :=
  ((tokenize source file).filter (·.kind ≠ .eof)).length

theorem sourceLength_eq {file source : String} {ts : List Token} {t : Token}
    (htokens : tokenize source file = ts ++ [t]) (hts : ∀ u ∈ ts, u.kind ≠ .eof)
    (ht : t.kind = .eof) : sourceLength file source = ts.length := by
  rw [sourceLength, htokens, List.filter_append, List.filter_eq_self.2 (by simpa using hts)]
  simp [ht]

/-- There is one end of a source, behind all other tokens. -/
theorem length_tokenize (file source : String) :
    (tokenize source file).length = sourceLength file source + 1 := by
  obtain ⟨ts, t, htokens, ht, hspelt⟩ := exists_tokenize_eq file source
  rw [sourceLength_eq htokens (fun u hu => (hspelt u hu).ne_eof) ht, htokens]
  simp

/-- A source ends behind all its other tokens. -/
theorem Parser.endsAt_tokenize (limit : Nat) (file source : String) :
    (ofTokens (.limited limit) (tokenize source file)).EndsAt (sourceLength file source) := by
  obtain ⟨ts, t, htokens, ht, hspelt⟩ := exists_tokenize_eq file source
  have hts : ∀ u ∈ ts, u.kind ≠ .eof := fun u hu => (hspelt u hu).ne_eof
  rw [sourceLength_eq htokens hts ht, htokens]
  exact endsAt_ofTokens hts ht

/-- What reading a source leaves behind. -/
theorem parseAs_of_exec {file source : String} {program : Option Program} {q : Parser}
    (h : Parsing.parseProgram.exec (.ofTokens .standard (tokenize source file)) = (program, q)) :
    parseAs file source = ⟨program.getD ⟨[]⟩, q.diagnostics.toList⟩ := by
  rw [parseAs, parseTokens, h]

/-! ### Tokens read -/

/-- Only a step forward changes the place in the source. -/
theorem Event.index_after (e : Event) :
    e.after.index = e.before.index + if e.step = .advance then 1 else 0 := by
  obtain ⟨p, step⟩ := e
  cases step with
  | restart complete => cases complete <;> rfl
  | advance => simp [after, Step.apply]
  | _ => rfl

/-- **The tokens read** in a log are its steps forward. -/
theorem Leads.index {p q : Parser} {log : List Event} (h : Leads p log q) :
    q.index = p.index + (log.map Event.step).count .advance := by
  induction log generalizing p with
  | nil => rw [show q = p from h]; rfl
  | cons e log ih =>
    obtain ⟨rfl, h⟩ := h
    rw [ih h, e.index_after, List.map_cons, List.count_cons]
    by_cases hstep : e.step = .advance
    · simp [hstep]
      omega
    · simp [hstep]

/-- By how many tokens a routine may go further than an expression would: a list of statements moves
on behind the last of them. -/
def Routine.slack : Routine → Nat
  | items _ | program => 1
  | _ => 0

/-- **How far it is from `p` to `q`** in a source that ends at `n`. -/
structure Reach (n slack : Nat) (p q : Parser) : Prop where
  /-- No token is read twice. -/
  le : p.index ≤ q.index
  /-- At the end nothing moves any more. -/
  stays : n ≤ p.index → q.index = p.index
  /-- Beyond the end it goes no further than it started before the end. -/
  add_le : p.index ≤ n → p.index + q.index ≤ 2 * n + slack

section Reach

variable {n : Nat} {p q r : Parser}

theorem reach_of_eq (h : q.index = p.index) (slack : Nat) : Reach n slack p q :=
  ⟨Nat.le_of_eq h.symm, fun _ => h, fun _ => by omega⟩

theorem Reach.trans (h : Reach n 0 p q) (h' : Reach n 0 q r) : Reach n 0 p r := by
  obtain ⟨hle, hstays, hadd⟩ := h
  obtain ⟨hle', hstays', hadd'⟩ := h'
  exact ⟨by omega, by omega, by omega⟩

/-- One token before the end and on from there. What follows may have one token more. -/
theorem Reach.advance (h : Reach n 1 p.advance q) (hp : p.index < n) : Reach n 0 p q := by
  obtain ⟨hle, hstays, hadd⟩ := h
  rw [Parser.advance_index] at hle hstays hadd
  exact ⟨by omega, by omega, by omega⟩

theorem Reach.weaken {slack : Nat} (h : Reach n 0 p q) : Reach n slack p q :=
  ⟨h.le, h.stays, fun hp => Nat.le_trans (h.add_le hp) (by omega)⟩

/-- One statement of a list and on from behind it. -/
theorem Reach.item {s : Parser} (h : Reach n 0 p q) (hs : s.index = q.index + 1)
    (h' : Reach n 1 s r) (hp : p.index < n) : Reach n 1 p r := by
  obtain ⟨hle, hstays, hadd⟩ := h
  obtain ⟨hle', hstays', hadd'⟩ := h'
  exact ⟨by omega, by omega, by omega⟩

end Reach

namespace Course

/-- **A program is read to its end**, and always gives a value. -/
theorem of_program {free : Parser → Prop} {p q : Parser} {ok : Bool} {log : List Event}
    (h : Course free .program p ok log q) : ok = true ∧ q.current.kind = .eof := by
  generalize hroutine : Routine.program = routine at h
  induction h with
  | programEnd hkind => exact ⟨rfl, hkind⟩
  | programItem _ _ _ _ ih => exact ih rfl
  | _ => cases hroutine

variable {n : Nat} {routine : Routine} {p q : Parser} {ok : Bool} {log : List Event}

/-- **How far a course goes**, by induction on the course. -/
theorem reach (h : Course Parser.BeforeEnd routine p ok log q) (hp : p.EndsAt n) :
    Reach n routine.slack p q := by
  induction h with
  | refused | noExpression | invalidInteger | missing | blockMissing | unclosed | operatorsEnd | done
  | closed | programEnd => exact reach_of_eq (by rfl) _
  | opened _ _ ih =>
    -- the count of open expressions has no part in this
    have h := ih (hp.withDepth _)
    exact ⟨h.le, h.stays, h.add_le⟩
  | firstFails _ _ ih | first _ _ ih | branch _ ih | statement _ ih | keyword _ _ ih => exact ih hp
  | firstRead _ hfirst _ ih ih' | expressionStatement hfirst _ ih ih' =>
    exact (ih hp).trans (ih' (hp.later hfirst.later))
  | operatorFails hoperator _ ih =>
    exact (ih hp.advance).weaken.advance (by have := hp.lt_of_operator hoperator; omega)
  | operatorRead hoperator hrest _ ih ih' =>
    exact ((ih hp.advance).trans (ih' (hp.advance.later hrest.later))).weaken.advance
      (by have := hp.lt_of_operator hoperator; omega)
  | required hkind hpeek _ ih | passed hkind hpeek _ ih =>
    exact (ih hp.advance).weaken.advance (by have := hp.lt_of_peek hkind hpeek; omega)
  | operand hfree hvalue _ ih ih' =>
    exact ((ih hp.advance).trans (ih' (hp.advance.later hvalue.later))).weaken.advance
      (hp.lt_of_beforeEnd hfree)
  | blockFails hpeek _ ih =>
    exact (ih hp.advance).weaken.advance (by have := hp.lt_of_peek (by decide) hpeek; omega)
  | blockRead hpeek hblock _ ih ih' =>
    exact ((ih hp.advance).trans (ih' (hp.advance.later hblock.later))).weaken.advance
      (by have := hp.lt_of_peek (by decide) hpeek; omega)
  | block hfree _ ih => exact (ih hp.advance).advance (hp.lt_of_beforeEnd hfree)
  | item _ hinside hstatement _ ih ih' =>
    exact (ih hp).item (Parser.advance_index _) (ih' (hp.later hstatement.later).advance)
      (hp.lt_of_beforeEnd hinside)
  | @programItem p q _ found _ _ _ hinside hstatement _ ih ih' =>
    have hlater := hstatement.later.trans (later_restart found q)
    have hindex : ((Step.restart found).apply q).advance.index = q.index + 1 := by
      cases found <;> rw [Parser.advance_index] <;> rfl
    exact (ih hp).item hindex (ih' (hp.later hlater).advance) (hp.lt_of_beforeEnd hinside)

end Course

/-! ### Open expressions -/

/-- Whether a routine is part of an expression that has been opened, which its first token answers
for. -/
def Routine.lead : Routine → Nat
  | climb _ | first _ | operators _ | rest .. | block => 1
  | _ => 0

/-- **The open expressions are covered** by the tokens that have been read, one of them perhaps by the
current token. -/
structure Parser.Covered (n lead : Nat) (p : Parser) : Prop where
  /-- The source ends there. -/
  ends : p.EndsAt n
  /-- There is a token for each. -/
  le_index : p.depth ≤ p.index + lead
  /-- None of these tokens is the end of the source. -/
  le_end : p.depth ≤ n + lead

/-- Few expressions are open at the event, and fewer where one is refused. -/
def Event.Shallow (n : Nat) (e : Event) : Prop :=
  e.before.depth ≤ n + 1 ∧ (e.step = .refuse → e.before.depth ≤ n)

section Covered

variable {n lead : Nat} {p q : Parser}

open MonkeySyntax.Parser

theorem Parser.Covered.later (hp : p.Covered n lead) (h : Later p q) : q.Covered n lead := by
  refine ⟨hp.ends.later h, ?_, ?_⟩ <;> rw [h.depth_eq]
  · exact Nat.le_trans hp.le_index (Nat.add_le_add_right h.index_le _)
  · exact hp.le_end

theorem Parser.Covered.advance (hp : p.Covered n lead) : p.advance.Covered n lead :=
  hp.later (later_advance p)

theorem Parser.Covered.weaken (hp : p.Covered n 0) : p.Covered n 1 :=
  ⟨hp.ends, Nat.le_succ_of_le hp.le_index, Nat.le_succ_of_le hp.le_end⟩

/-- An expression may be opened behind a token that is not the end. -/
theorem Parser.Covered.behind (hp : p.Covered n 1) (h : p.BeforeEnd) : p.advance.Covered n 0 := by
  have hindex := hp.le_index
  have hlt := hp.ends.lt_of_beforeEnd h
  refine ⟨hp.ends.advance, ?_, ?_⟩ <;> rw [advance_depth]
  · rw [advance_index]; omega
  · omega

/-- An expression that is opened is covered by its first token. -/
theorem Parser.Covered.enter (hp : p.Covered n 0) : (p.withDepth (p.depth + 1)).Covered n 1 :=
  ⟨hp.ends.withDepth _, Nat.succ_le_succ hp.le_index, Nat.succ_le_succ hp.le_end⟩

theorem Parser.Covered.shallow (hp : p.Covered n lead) (hlead : lead ≤ 1) {step : Step}
    (hstep : step ≠ .refuse) : Event.Shallow n ⟨p, step⟩ :=
  ⟨Nat.le_trans hp.le_end (Nat.add_le_add_left hlead n), fun h => absurd h hstep⟩

theorem Parser.Covered.shallow_refuse (hp : p.Covered n 0) (step : Step) :
    Event.Shallow n ⟨p, step⟩ :=
  ⟨Nat.le_succ_of_le hp.le_end, fun _ => hp.le_end⟩

end Covered

theorem Routine.lead_le (routine : Routine) : routine.lead ≤ 1 := by
  cases routine <;> simp [lead]

/-- **Never more expressions are open than tokens have been read**, by induction on the course. -/
theorem Course.shallow {n : Nat} {routine : Routine} {p q : Parser} {ok : Bool} {log : List Event}
    (h : Course Parser.BeforeEnd routine p ok log q) (hp : p.Covered n routine.lead) :
    ∀ e ∈ log, e.Shallow n := by
  induction h with
  | refused => simpa using hp.shallow_refuse .refuse
  | opened _ hinside ih =>
    simp only [List.forall_mem_cons, List.forall_mem_append]
    have hq := hp.enter.later hinside.later
    exact ⟨hp.shallow (Routine.lead_le _) (by decide), ih hp.enter,
      hq.shallow le_rfl (by decide), by simp⟩
  | noExpression | invalidInteger | missing | blockMissing | unclosed =>
    simpa using hp.shallow (Routine.lead_le _) (by simp)
  | operatorsEnd | done | closed | programEnd => simp
  | firstFails _ _ ih | first _ _ ih | branch _ ih | statement _ ih => exact ih hp
  | keyword _ _ ih => exact ih hp.weaken
  | firstRead _ hfirst _ ih ih' =>
    exact List.forall_mem_append.2 ⟨ih hp, ih' (hp.later hfirst.later)⟩
  | expressionStatement hvalue _ ih ih' =>
    exact List.forall_mem_append.2 ⟨ih hp, ih' (hp.later hvalue.later).weaken⟩
  | operatorFails _ _ ih | required _ _ _ ih | passed _ _ _ ih | blockFails _ _ ih =>
    exact List.forall_mem_cons.2 ⟨hp.shallow le_rfl (by decide), ih hp.advance⟩
  | block hfree _ ih =>
    -- the brace is behind, so it covers what the block is part of
    exact List.forall_mem_cons.2 ⟨hp.shallow le_rfl (by decide), ih (hp.behind hfree)⟩
  | operatorRead _ hfirst _ ih ih' | blockRead _ hfirst _ ih ih' =>
    simp only [List.forall_mem_cons, List.forall_mem_append]
    exact ⟨hp.shallow le_rfl (by decide), ih hp.advance, ih' (hp.advance.later hfirst.later)⟩
  | operand hfree hvalue _ ih ih' =>
    -- the token before the operand covers the expression that the operand is part of
    simp only [List.forall_mem_cons, List.forall_mem_append]
    exact ⟨hp.shallow le_rfl (by decide), ih (hp.behind hfree),
      ih' (hp.advance.later hvalue.later)⟩
  | item _ _ hstatement _ ih ih' =>
    have hq := hp.later hstatement.later
    simp only [List.forall_mem_cons, List.forall_mem_append]
    exact ⟨ih hp, hq.shallow (Routine.lead_le _) (by decide), ih' hq.advance⟩
  | @programItem p q _ found _ _ _ _ hstatement _ ih ih' =>
    have hq := hp.later hstatement.later
    have hr := hq.later (later_restart found q)
    simp only [List.forall_mem_cons, List.forall_mem_append]
    exact ⟨ih hp, hq.shallow (Routine.lead_le _) (by simp),
      hr.shallow (Routine.lead_le _) (by decide), ih' hr.advance⟩

end MonkeySyntax
