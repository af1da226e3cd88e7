import MonkeySyntax.Proofs.Nesting
import MonkeySyntax.Proofs.Parsing.Asking

/-! # Where a block ends

A block without blocks inside ends at the first closing brace, unless an expression is asked for there.
Then that brace is no end: it is reported, read over, and what stands behind it belongs to the block.

* **`Parser.Braced m p`** — no brace and no end of the source comes before the closing brace `m`.
* `Leads.index_le`, `Course.asked_lt` — behind an expression that is asked for a block goes on.
* **`Course.stays_braced`** — where no expression is asked for at the brace nothing goes past it.
* `Course.passes_brace`, `Course.ends_braced` — the two ways that a block may take.
* **`parseBlock_ends_iff`** — a block ends at its brace exactly if no expression is asked for there. -/

namespace MonkeySyntax

open Parsing

/-! ### Before the closing brace -/

/-- The parser follows the rules of the language, and **the token with the number `m` is the closing
brace** of what it stands in: it comes before any other brace and before the end. -/
structure Parser.Braced (m : Nat) (p : Parser) : Prop where
  /-- The rules are those of the language. -/
  standard : p.Standard
  /-- There is the brace. -/
  close : (p.tokenAt m).kind = .closeBrace
  /-- No other brace and no end comes before it. -/
  inside : ∀ i, p.index ≤ i → i < m →
    (p.tokenAt i).kind ≠ .openBrace ∧ (p.tokenAt i).kind ≠ .closeBrace ∧ (p.tokenAt i).kind ≠ .eof

namespace Parser.Braced

variable {m : Nat} {p q : Parser}

theorem later (hp : p.Braced m) (h : Later p q) : q.Braced m :=
  ⟨hp.standard.later h, by rw [h.tokenAt_eq, hp.close],
    fun i hi him => by rw [h.tokenAt_eq]; exact hp.inside i (Nat.le_trans h.index_le hi) him⟩

theorem advance (hp : p.Braced m) : p.advance.Braced m :=
  hp.later (later_advance p)

theorem withDepth (hp : p.Braced m) (depth : Nat) : (p.withDepth depth).Braced m :=
  ⟨hp.standard.withDepth depth, hp.close, hp.inside⟩

/-- At the brace the current token is a closing one. -/
theorem current_close (hp : p.Braced m) (h : p.index = m) : p.current.kind = .closeBrace := by
  subst h
  exact hp.close

/-- One token before the brace a closing one comes next. -/
theorem peek_close (hp : p.Braced m) (h : p.index + 1 = m) : p.peek.kind = .closeBrace := by
  subst h
  exact hp.close

/-- The current token is not the brace. -/
theorem lt_of_current (hp : p.Braced m) (hle : p.index ≤ m) (h : p.current.kind ≠ .closeBrace) :
    p.index < m :=
  Nat.lt_of_le_of_ne hle fun heq => h (hp.current_close heq)

/-- The token ahead is not the brace. -/
theorem lt_of_peek (hp : p.Braced m) (hlt : p.index < m) (h : p.peek.kind ≠ .closeBrace) :
    p.advance.index < m := by
  rw [advance_index]
  exact Nat.lt_of_le_of_ne hlt fun heq => h (hp.peek_close heq)

/-- A closing brace up to there is the brace. -/
theorem index_eq (hp : p.Braced m) (hle : p.index ≤ m) (h : p.current.kind = .closeBrace) :
    p.index = m :=
  Nat.le_antisymm hle (Nat.not_lt.1 fun hlt => (hp.inside p.index le_rfl hlt).2.1 h)

/-- The end does not come before the brace. -/
theorem current_ne_eof (hp : p.Braced m) (hle : p.index ≤ m) : p.current.kind ≠ .eof := by
  rcases Nat.lt_or_eq_of_le hle with hlt | heq
  · exact (hp.inside p.index le_rfl hlt).2.2
  · simp [hp.current_close heq]

/-- No other block is opened before the brace. -/
theorem peek_ne_openBrace (hp : p.Braced m) (hlt : p.index < m) : p.peek.kind ≠ .openBrace := by
  rcases Nat.lt_or_eq_of_le (Nat.succ_le_of_lt hlt) with hlt | heq
  · exact (hp.inside (p.index + 1) (Nat.le_succ _) hlt).1
  · simp [hp.peek_close heq]

/-- The brace is no operator. -/
theorem lt_of_operator (hp : p.Braced m) (hlt : p.index < m) {power : Power} {op : Operator}
    (h : p.operatorAhead? power = some op) : p.advance.index < m := by
  refine hp.lt_of_peek hlt fun hclose => ?_
  rw [operatorAhead?, hp.standard.operator?_eq, hclose] at h
  exact absurd h (by simp [Grammar.standardOperator?])

end Parser.Braced

/-! ### What goes past it -/

/-- No step changes the source. -/
theorem Event.tokenAt_after (e : Event) (i : Nat) : e.after.tokenAt i = e.before.tokenAt i := by
  obtain ⟨p, step⟩ := e
  cases step with
  | restart complete => cases complete <;> rfl
  | advance => exact (Parser.later_advance p).tokenAt_eq i
  | _ => rfl

/-- All events of a log have the same source. -/
theorem Leads.tokenAt_eq {p q : Parser} {log : List Event} (h : Leads p log q) (i : Nat) :
    ∀ e ∈ log, e.before.tokenAt i = p.tokenAt i := by
  induction log generalizing p with
  | nil => simp
  | cons e log ih =>
    obtain ⟨rfl, hrest⟩ := h
    exact List.forall_mem_cons.2 ⟨rfl, fun f hf => (ih hrest f hf).trans (e.tokenAt_after i)⟩

/-- A log does not go back. -/
theorem Leads.index_le {p q : Parser} {log : List Event} (h : Leads p log q) :
    ∀ e ∈ log, e.before.index ≤ q.index := by
  induction log generalizing p with
  | nil => simp
  | cons e log ih =>
    obtain ⟨-, hrest⟩ := h
    refine List.forall_mem_cons.2 ⟨?_, ih hrest⟩
    have hafter := e.index_after
    have hindex := hrest.index
    omega

/-- **How far a routine goes** from before the closing brace, if no expression is asked for there: the
statements of a block end at the brace, and all else stays before it. -/
def Routine.StaysBraced (m : Nat) (p : Parser) (ok : Bool) (q : Parser) : Routine → Prop
  | items _ => p.index ≤ m → ok = true ∧ q.index = m
  | block | program => True
  | _ => p.index < m → q.index < m

namespace Course

variable {free : Parser → Prop} {routine : Routine} {p q : Parser} {ok : Bool} {log : List Event}
  {m : Nat}

/-- **Behind an expression that is asked for a block goes on**, by induction on the course: at least
one token is read over behind each statement. -/
theorem asked_lt {opener : Nat} (h : Course free (.items opener) p ok log q) :
    ∀ e ∈ log, e.Asks → e.before.index < q.index := by
  generalize hroutine : Routine.items opener = routine at h
  induction h with
  | closed | unclosed => simp
  | @item _ p q r _ _ _ _ _ _ hstatement hmore _ ih =>
    have hle := hmore.later.index_le
    rw [Parser.advance_index] at hle
    simp only [List.forall_mem_append, List.forall_mem_cons]
    exact ⟨fun e he _ => Nat.lt_of_le_of_lt (hstatement.leads.index_le e he) hle, by simp, ih hroutine⟩
  | _ => cases hroutine

/-- **Where no expression is asked for at the brace nothing goes past it**, by induction on the
course. -/
theorem stays_braced (h : Course free routine p ok log q) (hp : p.Braced m)
    (horderly : routine.Orderly p) (hlog : ∀ e ∈ log, e.Asks → e.before.index ≠ m) :
    routine.StaysBraced m p ok q := by
  induction h with
  | refused | noExpression | invalidInteger | missing | blockMissing | operatorsEnd | done =>
    exact id
  | block | programEnd | programItem => trivial
  | closed hkind => exact fun hle => ⟨rfl, hp.index_eq hle hkind⟩
  | unclosed hkind => exact fun hle => absurd hkind (hp.current_ne_eof hle)
  | opened _ _ ih =>
    simp only [List.forall_mem_cons, List.forall_mem_append] at hlog
    exact ih (hp.withDepth _) trivial hlog.2.1
  | firstFails hrule _ ih =>
    exact ih hp (PrefixRule.orderly (hp.standard.prefixRule?_eq ▸ hrule)) hlog
  | firstRead hrule hfirst _ ih ih' =>
    rw [List.forall_mem_append] at hlog
    have hstay := ih hp (PrefixRule.orderly (hp.standard.prefixRule?_eq ▸ hrule)) hlog.1
    exact fun hlt => ih' (hp.later hfirst.later) trivial hlog.2 (hstay hlt)
  | first _ _ ih => exact ih hp horderly hlog
  | operatorFails hoperator _ ih =>
    rw [List.forall_mem_cons] at hlog
    exact fun hlt => ih hp.advance (hp.standard.orderly_operator hoperator) hlog.2
      (hp.lt_of_operator hlt hoperator)
  | operatorRead hoperator hrest _ ih ih' =>
    simp only [List.forall_mem_cons, List.forall_mem_append] at hlog
    have hstay := ih hp.advance (hp.standard.orderly_operator hoperator) hlog.2.1
    exact fun hlt => ih' (hp.advance.later hrest.later) trivial hlog.2.2
      (hstay (hp.lt_of_operator hlt hoperator))
  | @required _ _ _ _ _ p _ _ _ hpeek _ ih | @passed _ _ _ _ _ p _ _ _ hpeek _ ih =>
    rw [List.forall_mem_cons] at hlog
    obtain ⟨hkind, hparts⟩ := horderly
    have horderly' : MonkeySyntax.Orderly p.advance.current.kind _ :=
      (Parser.current_advance p).symm ▸ hpeek.symm ▸ hparts
    exact fun hlt => ih hp.advance horderly' hlog.2 (hp.lt_of_peek hlt (hpeek ▸ hkind))
  | @operand _ _ _ _ _ _ _ p _ _ _ _ _ hvalue _ ih ih' =>
    simp only [List.forall_mem_cons, List.forall_mem_append] at hlog
    intro hlt
    -- the operand is asked for at the token ahead, so this is not the brace
    obtain ⟨step, rest, rfl, hstep⟩ := hvalue.head_of_expression
    have hne : p.advance.index ≠ m := hlog.2.1 _ (List.mem_cons_self ..) hstep
    have hle : p.advance.index ≤ m := (Parser.advance_index p).symm ▸ hlt
    exact ih' (hp.advance.later hvalue.later) (horderly.2 _) hlog.2.2
      (ih hp.advance trivial hlog.2.1 (Nat.lt_of_le_of_ne hle hne))
  | blockFails hpeek | blockRead hpeek =>
    -- no block begins before the brace
    exact fun hlt => absurd hpeek (hp.peek_ne_openBrace hlt)
  | @branch _ _ _ _ _ p _ _ _ ih => exact ih hp (Orderly.branch horderly p) hlog
  | statement _ ih =>
    refine ih hp ?_ hlog
    rw [Routine.Orderly, hp.standard.statementRule?_eq]
    exact StatementRule.orderly _
  | keyword _ _ ih => exact ih hp horderly hlog
  | expressionStatement hvalue _ ih ih' =>
    rw [List.forall_mem_append] at hlog
    refine fun hlt => ih' (hp.later hvalue.later) ?_ hlog.2 (ih hp trivial hlog.1 hlt)
    simp [Routine.Orderly, StatementRule.parts, MonkeySyntax.Orderly]
  | item hopen _ hstatement _ ih ih' =>
    simp only [List.forall_mem_append, List.forall_mem_cons] at hlog
    intro hle
    -- the statement stays before the brace, so the step behind it comes to the brace at most
    have hstay := ih hp trivial hlog.1 (hp.lt_of_current hle hopen)
    exact ih' (hp.later hstatement.later).advance trivial hlog.2.2
      ((Parser.advance_index _).symm ▸ hstay)

/-- A block is its opening brace and the statements behind it. -/
theorem items_of_block (h : Course free .block p ok log q) :
    ∃ rest, log = ⟨p, .advance⟩ :: rest ∧ Course free (.items p.index) p.advance ok rest q := by
  cases h with
  | block _ hitems => exact ⟨_, rfl, hitems⟩

/-- **A closing brace at which an expression is asked for is passed**, and the token before it opens an
operand. -/
theorem passes_brace (h : Course free .block p ok log q) (hp : p.Standard)
    (hclose : (p.tokenAt m).kind = .closeBrace) :
    ∀ e ∈ log, e.Asks → e.before.index = m →
      (p.tokenAt (m - 1)).kind.OpensOperand ∧ m < q.index := by
  intro e he hasks hindex
  have hcurrent : e.before.current.kind = .closeBrace := by
    rw [Parser.current, hindex, h.leads.tokenAt_eq m e he, hclose]
  have hopens := h.sanctioned hp trivial trivial e he hasks hcurrent
  rw [hindex, h.leads.tokenAt_eq _ e he] at hopens
  obtain ⟨rest, rfl, hitems⟩ := h.items_of_block
  have hmem : e ∈ rest := by
    refine (List.mem_cons.1 he).resolve_left ?_
    rintro rfl
    exact Event.not_asks_advance p hasks
  exact ⟨hopens, hindex ▸ hitems.asked_lt e hmem hasks⟩

/-- **A block ends at its brace** where no expression is asked for there. -/
theorem ends_braced (h : Course free .block p ok log q) (hp : p.advance.Braced m)
    (hle : p.advance.index ≤ m) (hlog : ∀ e ∈ log, e.Asks → e.before.index ≠ m) :
    ok = true ∧ q.index = m := by
  obtain ⟨rest, rfl, hitems⟩ := h.items_of_block
  exact hitems.stays_braced hp trivial (List.forall_mem_cons.1 hlog).2 hle

end Course

/-! ### Blocks -/

/-- **The block ends at the token with the number `m`**: it is given, and this token is the current one
behind it. -/
def Parser.BlockEnds (p : Parser) (m : Nat) : Prop :=
  (parseBlock.exec p).1.isSome = true ∧ (parseBlock.exec p).2.index = m ∧
    (parseBlock.exec p).2.current = p.tokenAt m

instance (p : Parser) (m : Nat) : Decidable (p.BlockEnds m) := inferInstanceAs (Decidable (_ ∧ _))

section BlockEnds

variable {p : Parser} {m : Nat}

theorem Parser.blockEnds_iff_index (h : Later p (parseBlock.exec p).2) :
    p.BlockEnds m ↔ (parseBlock.exec p).1.isSome = true ∧ (parseBlock.exec p).2.index = m := by
  refine and_congr_right fun _ => and_iff_left_of_imp fun hindex => ?_
  rw [current, hindex, h.tokenAt_eq]

/-- **A block ends at its brace exactly if no expression is asked for there.** Between the opening brace
of a block and a closing one let there be any tokens but braces and the end of the source. The one course
of the block asks for an expression at the closing brace only behind a token that opens an operand. If it
does not ask for one there, the block is given and this brace is the current token behind it. If it does,
the brace is read over, and with it what stands behind. -/
theorem parseBlock_ends_iff (hgrammar : p.grammar = .standard) (heof : p.eof.kind = .eof)
    (hlt : p.index < m) (hclose : (p.tokenAt m).kind = .closeBrace)
    (hinside : ∀ i < m, p.index < i →
      (p.tokenAt i).kind ≠ .openBrace ∧ (p.tokenAt i).kind ≠ .closeBrace ∧ (p.tokenAt i).kind ≠ .eof) :
    (∃ log, Course (fun _ => True) .block p (parseBlock.exec p).1.isSome log (parseBlock.exec p).2 ∧
      (∀ ok log' q, Course (fun _ => True) .block p ok log' q → log' = log) ∧
      (p.BlockEnds m ↔ ∀ e ∈ log, e.Asks → e.before.index ≠ m) ∧
      (∀ e ∈ log, e.Asks → e.before.index = m →
        (p.tokenAt (m - 1)).kind.OpensOperand ∧ m < (parseBlock.exec p).2.index)) ∧
    (¬ (p.tokenAt (m - 1)).kind.OpensOperand → p.BlockEnds m) := by
  have hp := Parser.standard_of_grammar hgrammar heof
  obtain ⟨log, hcourse⟩ : Follows (fun _ => True) .block parseBlock p :=
    follows_parseBlock (fun _ _ => trivial) hp trivial
  have hbraced : p.advance.Braced m := by
    refine ⟨hp.advance, by rw [(Parser.later_advance p).tokenAt_eq, hclose], fun i hi him => ?_⟩
    rw [(Parser.later_advance p).tokenAt_eq]
    rw [Parser.advance_index] at hi
    exact hinside i him hi
  have hle : p.advance.index ≤ m := (Parser.advance_index p).symm ▸ hlt
  have hpassed := hcourse.passes_brace hp hclose
  have hends (hlog : ∀ e ∈ log, e.Asks → e.before.index ≠ m) : p.BlockEnds m :=
    (Parser.blockEnds_iff_index hcourse.later).2 (hcourse.ends_braced hbraced hle hlog)
  refine ⟨⟨log, hcourse, fun ok log' q h => (hcourse.unique h).2.1,
    ⟨fun h e he hasks hindex => ?_, hends⟩, hpassed⟩, fun hopens => hends fun e he hasks hindex => ?_⟩
  · exact absurd h.2.1 (Nat.ne_of_gt (hpassed e he hasks hindex).2)
  · exact hopens (hpassed e he hasks hindex).1

/-- A parenthesis that is not closed does not keep a block from ending. -/
theorem parseBlock_ends_iff_open :
    (Parser.ofTokens .standard (tokenize "\x7b let y = 1; (y \x7d a" "")).BlockEnds 8 := by
  refine (parseBlock_ends_iff (Parser.grammar_ofTokens _ _)
    (Parser.endsAt_tokenize 256 "" "\x7b let y = 1; (y \x7d a").standard.eof_kind ?_ ?_ ?_).2 ?_
  all_goals decide +kernel

/-- Behind `return` the closing brace is no end. -/
theorem parseBlock_passes_brace :
    ¬ ∀ (p : Parser) (m : Nat), p.grammar = .standard → p.eof.kind = .eof →
      p.current.kind = .openBrace → p.index < m → (p.tokenAt m).kind = .closeBrace →
      (∀ i < m, p.index < i → (p.tokenAt i).kind ≠ .openBrace ∧
        (p.tokenAt i).kind ≠ .closeBrace ∧ (p.tokenAt i).kind ≠ .eof) → p.BlockEnds m := by
  intro h
  refine absurd (h (.ofTokens .standard (tokenize "\x7b return \x7d a" "")) 2
    (Parser.grammar_ofTokens _ _)
    (Parser.endsAt_tokenize 256 "" "\x7b return \x7d a").standard.eof_kind ?_ ?_ ?_ ?_) ?_
  all_goals decide +kernel

end BlockEnds

end MonkeySyntax
