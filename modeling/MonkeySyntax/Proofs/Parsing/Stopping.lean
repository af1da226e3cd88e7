import MonkeySyntax.Proofs.Parsing.Course

/-! # Where an expression stops

An expression is continued only by what stands before the next semicolon. But an operand is asked for
without looking, also at a semicolon: there it is missed, and the expression goes on behind.

* **`Kind.TakesOperand`** — the kinds inside an expression behind which an operand is asked for.
* `Tight k parts` — what the parts of a rule may be inside an expression, behind a token of the kind `k`;
  `PrefixRule.tight`, `InfixRule.tight` — the rules keep to this.
* **`Parser.Parted m p`** — no block begins ahead, and the token with the number `m` is a semicolon.
* **`Parser.Misses p m log`** — the log tells that an operand is missing at the token `m`.
* **`Course.stops_or_misses`** — an expression stops before the semicolon unless an operand is missing
  there. -/

namespace MonkeySyntax

/-! ### What an expression is made of -/

/-- **A token of this kind takes an operand**: inside an expression, what stands behind it is read as an
expression without looking. -/
def Kind.TakesOperand (k : Kind) : Prop :=
  k ∈ [Kind.comma, .openParen, .bang, .minus, .equals, .notEquals, .less, .greater, .plus, .star, .slash]

instance (k : Kind) : Decidable k.TakesOperand := inferInstanceAs (Decidable (_ ∈ _))

/-- **The parts may stand inside an expression** behind a token of the kind: operands only behind a token
that takes one, and no semicolon is read over. -/
def Tight : Kind → List Part → Prop
  | _, [] => True
  | _, .require kind :: parts | _, .pass kind :: parts => kind ≠ .semicolon ∧ Tight kind parts
  | k, .operand _ _ :: parts => k.TakesOperand ∧ ∀ k, Tight k parts
  | _, .block :: parts => ∀ k, Tight k parts
  | k, .branch b :: parts =>
    (b = .arguments → k = .openParen) ∧ b ≠ .semicolons ∧ b ≠ .semicolon ∧ ∀ k, Tight k parts

/-- At a branch the rule goes on in the same way. -/
theorem Tight.branch {k : Kind} {b : Branch} {parts : List Part}
    (h : Tight k (.branch b :: parts)) (p : Parser) : Tight k (b.parts p ++ parts) := by
  obtain ⟨hopen, hmany, hone, hparts⟩ := h
  cases b with
  | arguments =>
    obtain rfl := hopen rfl
    rw [Branch.parts]
    split <;> simp [Tight, hparts, Kind.TakesOperand]
  | semicolons => exact absurd rfl hmany
  | semicolon => exact absurd rfl hone
  | _ =>
    rw [Branch.parts]
    split <;> simp [Tight, hparts, Kind.TakesOperand]

/-- The rules of first parts are tight. -/
theorem PrefixRule.tight {k : Kind} {rule : PrefixRule}
    (h : Grammar.standardPrefixRule? k = some rule) : Tight k rule.parts := by
  cases k <;> simp [Grammar.standardPrefixRule?] at h <;> subst h <;>
    simp [parts, Tight, Kind.TakesOperand]

/-- So are those of operators and calls. -/
theorem InfixRule.tight {k : Kind} {op : Operator} (h : Grammar.standardOperator? k = some op) :
    Tight k (op.rule.parts op.power) := by
  cases k <;> simp [Grammar.standardOperator?] at h <;> subst h <;>
    simp [parts, Tight, Kind.TakesOperand]

/-- The operator ahead has a tight rule. -/
theorem Parser.Standard.tight_operator {p : Parser} (hp : p.Standard) {power : Power} {op : Operator}
    (h : p.operatorAhead? power = some op) :
    Tight p.advance.current.kind (op.rule.parts op.power) := by
  rw [operatorAhead?, hp.operator?_eq, Option.filter_eq_some_iff] at h
  rw [current_advance]
  exact InfixRule.tight h.1

/-- **The routine is part of an expression**, with its parts behind the current token. -/
def Routine.Tight (p : Parser) : Routine → Prop
  | expression _ | climb _ | operators _ => True
  | first rule => MonkeySyntax.Tight p.current.kind rule.parts
  | rest _ _ parts => MonkeySyntax.Tight p.current.kind parts
  | _ => False

/-! ### Before a semicolon -/

/-- The parser follows the rules of the language, **the token with the number `m` is a semicolon**, and no
block begins ahead. -/
structure Parser.Parted (m : Nat) (p : Parser) : Prop where
  /-- The rules are those of the language. -/
  standard : p.Standard
  /-- There is the semicolon. -/
  semicolon : (p.tokenAt m).kind = .semicolon
  /-- There is no opening brace. -/
  unbraced : ∀ i, p.index ≤ i → (p.tokenAt i).kind ≠ .openBrace

namespace Parser.Parted

variable {m : Nat} {p q : Parser}

theorem later (hp : p.Parted m) (h : Later p q) : q.Parted m :=
  ⟨hp.standard.later h, by rw [h.tokenAt_eq, hp.semicolon],
    fun i hi => by rw [h.tokenAt_eq]; exact hp.unbraced i (Nat.le_trans h.index_le hi)⟩

theorem advance (hp : p.Parted m) : p.advance.Parted m :=
  hp.later (later_advance p)

theorem withDepth (hp : p.Parted m) (depth : Nat) : (p.withDepth depth).Parted m :=
  ⟨hp.standard.withDepth depth, hp.semicolon, hp.unbraced⟩

/-- No block comes next. -/
theorem peek_ne_openBrace (hp : p.Parted m) : p.peek.kind ≠ .openBrace :=
  hp.unbraced _ (Nat.le_succ _)

/-- The token ahead is not the semicolon. -/
theorem lt_of_peek (hp : p.Parted m) (hlt : p.index < m) (h : p.peek.kind ≠ .semicolon) :
    p.advance.index < m := by
  rw [advance_index]
  refine Nat.lt_of_le_of_ne hlt fun heq => h ?_
  subst heq
  exact hp.semicolon

/-- The semicolon is no operator. -/
theorem lt_of_operator (hp : p.Parted m) (hlt : p.index < m) {power : Power} {op : Operator}
    (h : p.operatorAhead? power = some op) : p.advance.index < m := by
  refine hp.lt_of_peek hlt fun hpeek => ?_
  rw [operatorAhead?, Option.filter_eq_some_iff] at h
  simp [hpeek] at h

end Parser.Parted

/-! ### A missing operand -/

/-- **An operand is missing** at the semicolon with the number `m`: the token before it takes one, and the
log tells at this place that no expression begins there or may begin there. -/
structure Parser.Misses (p : Parser) (m : Nat) (log : List Event) : Prop where
  /-- The token before takes an operand. -/
  takes : (p.tokenAt (m - 1)).kind.TakesOperand
  /-- There is a note. -/
  noted : ∃ note ∈ log.filterMap Event.note?, note.2.position = (p.tokenAt m).span.start ∧
    (note.2.cause = .noExpression .semicolon ∨ note.2.cause = .nestingTooDeep p.grammar.depthLimit)

/-- What is missing in a part of a log is missing in all of it. -/
theorem Parser.Misses.of_later {p q : Parser} {m : Nat} {log log' : List Event}
    (h : q.Misses m log') (hlater : Later p q) (hsub : log' ⊆ log) : p.Misses m log := by
  obtain ⟨htakes, note, hnote, hposition, hcause⟩ := h
  rw [hlater.tokenAt_eq] at htakes hposition
  rw [hlater.grammar_eq] at hcause
  exact ⟨htakes, note, List.filterMap_subset _ hsub hnote, hposition, hcause⟩

namespace Course

variable {free : Parser → Prop} {routine : Routine} {p q : Parser} {ok : Bool} {log : List Event}
  {m : Nat}

/-- **At a semicolon no expression can be read**: it stays there and is noted. -/
theorem at_semicolon {power : Power} (h : Course free (.expression power) p ok log q)
    (hp : p.Standard) (hsemicolon : p.current.kind = .semicolon) :
    ok = false ∧ q.index = p.index ∧
      ∃ note ∈ log.filterMap Event.note?, note.2.position = p.current.span.start ∧
        (note.2.cause = .noExpression .semicolon ∨
          note.2.cause = .nestingTooDeep p.grammar.depthLimit) := by
  have hnone : p.grammar.prefixRule? p.current.kind = none := by
    rw [hp.prefixRule?_eq, hsemicolon]
    rfl
  cases h with
  | refused => exact ⟨rfl, rfl, _, List.mem_singleton.2 rfl, rfl, .inr rfl⟩
  | opened _ hinside =>
    cases hinside with
    | noExpression =>
      refine ⟨rfl, rfl, (p.index, ⟨.noExpression p.current.kind, p.current.span.start⟩), ?_, rfl,
        .inl (by rw [hsemicolon])⟩
      simp [Event.note?, Parser.current, Parser.withDepth, Parser.tokenAt]
    | firstFails hrule | firstRead hrule => exact absurd (hnone.symm.trans hrule) (by simp)

/-- **An expression stops before the semicolon, or misses an operand there**, by induction on the
course. -/
theorem stops_or_misses (h : Course free routine p ok log q) (hp : p.Parted m)
    (htight : routine.Tight p) (hlt : p.index < m) : q.index < m ∨ p.Misses m log := by
  induction h with
  | refused | noExpression | invalidInteger | missing | blockMissing | operatorsEnd | done =>
    exact .inl hlt
  | opened _ _ ih =>
    refine (ih (hp.withDepth _) trivial hlt).imp_right fun h => ⟨h.takes, ?_⟩
    obtain ⟨note, hnote, hrest⟩ := h.noted
    exact ⟨note, List.filterMap_subset _ (by simp) hnote, hrest⟩
  | firstFails hrule _ ih =>
    exact ih hp (PrefixRule.tight (hp.standard.prefixRule?_eq ▸ hrule)) hlt
  | firstRead hrule hfirst _ ih ih' =>
    rcases ih hp (PrefixRule.tight (hp.standard.prefixRule?_eq ▸ hrule)) hlt with hlt' | hmisses
    · exact (ih' (hp.later hfirst.later) trivial hlt').imp_right
        (·.of_later hfirst.later (List.subset_append_right _ _))
    · exact .inr (hmisses.of_later (Parser.later_refl _) (List.subset_append_left _ _))
  | first _ _ ih => exact ih hp htight hlt
  | operatorFails hoperator _ ih =>
    have hlt' := hp.lt_of_operator hlt hoperator
    exact (ih hp.advance (hp.standard.tight_operator hoperator) hlt').imp_right
      (·.of_later (Parser.later_advance _) (List.subset_cons_self _ _))
  | operatorRead hoperator hrest _ ih ih' =>
    have hlater := (Parser.later_advance _).trans hrest.later
    rcases ih hp.advance (hp.standard.tight_operator hoperator) (hp.lt_of_operator hlt hoperator)
      with hlt' | hmisses
    · exact (ih' (hp.advance.later hrest.later) trivial hlt').imp_right
        (·.of_later hlater (by simp))
    · exact .inr (hmisses.of_later (Parser.later_advance _) (by simp))
  | @required _ _ _ _ _ p _ _ _ hpeek _ ih | @passed _ _ _ _ _ p _ _ _ hpeek _ ih =>
    obtain ⟨hkind, hparts⟩ := htight
    have htight' : MonkeySyntax.Tight p.advance.current.kind _ :=
      (Parser.current_advance p).symm ▸ hpeek.symm ▸ hparts
    exact (ih hp.advance htight' (hp.lt_of_peek hlt (hpeek ▸ hkind))).imp_right
      (·.of_later (Parser.later_advance _) (List.subset_cons_self _ _))
  | @operand _ _ _ _ _ _ _ p q _ _ _ _ hvalue _ ih ih' =>
    have hlater := (Parser.later_advance p).trans hvalue.later
    rcases Nat.lt_or_eq_of_le (Nat.succ_le_of_lt hlt) with hlt | rfl
    · rcases ih hp.advance trivial ((Parser.advance_index p).symm ▸ hlt) with hlt' | hmisses
      · exact (ih' (hp.later hlater) (htight.2 _) hlt').imp_right (·.of_later hlater (by simp))
      · exact .inr (hmisses.of_later (Parser.later_advance _) (by simp))
    · -- the token ahead is the semicolon, and the operand is asked for there
      have hsemicolon : p.advance.current.kind = .semicolon :=
        (Parser.current_advance p).symm ▸ hp.semicolon
      obtain ⟨-, -, note, hnote, hposition, hcause⟩ :=
        hvalue.at_semicolon hp.standard.advance hsemicolon
      rw [Parser.current_advance] at hposition
      rw [Parser.advance_grammar] at hcause
      exact .inr ⟨htight.1, note, List.filterMap_subset _ (by simp) hnote, hposition, hcause⟩
  | blockFails hpeek | blockRead hpeek => exact absurd hpeek hp.peek_ne_openBrace
  | @branch _ _ _ _ _ p _ _ _ ih => exact ih hp (Tight.branch htight p) hlt
  | _ => exact htight.elim

end Course

end MonkeySyntax
