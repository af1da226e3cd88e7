import MonkeySyntax.Proofs.Parsing.Course

/-! # Where an expression is asked for

Some tokens have an expression behind them, and the parser moves on to it without looking what stands
there. Everywhere else it has looked at the token at which it asks for an expression.

* **`Event.Asks`** — an expression is to be opened at the current token.
* `Kind.OpensOperand` — the kinds of token behind which an expression is asked for without looking.
* `Orderly k parts` — what the parts of a rule may be behind a token of the kind `k`, and
  `Orderly.branch`, `PrefixRule.orderly`, … — the rules keep to this.
* **`Course.sanctioned`** — at a closing brace an expression is asked for only behind a token that opens
  an operand. -/

namespace MonkeySyntax

/-- **An expression is asked for** at the current token: it is opened, or refused because of the limit. -/
def Event.Asks (e : Event) : Prop :=
  e.step = .enter ∨ e.step = .refuse

@[simp] theorem Event.not_asks_advance (p : Parser) : ¬ Asks ⟨p, .advance⟩ := by simp [Asks]

@[simp] theorem Event.not_asks_leave (p : Parser) : ¬ Asks ⟨p, .leave⟩ := by simp [Asks]

@[simp] theorem Event.not_asks_report (p : Parser) (cause : Cause) (place opener : Nat) :
    ¬ Asks ⟨p, .report cause place opener⟩ := by simp [Asks]

@[simp] theorem Event.not_asks_restart (p : Parser) (complete : Bool) :
    ¬ Asks ⟨p, .restart complete⟩ := by simp [Asks]

/-! ### What opens an operand -/

/-- **A token of this kind opens an operand**: what stands behind it is read as an expression without
looking. -/
def Kind.OpensOperand (k : Kind) : Prop :=
  k ∈ [Kind.assign, .kwReturn, .comma, .openParen, .bang, .minus, .equals, .notEquals, .less, .greater,
    .plus, .star, .slash]

instance (k : Kind) : Decidable k.OpensOperand := inferInstanceAs (Decidable (_ ∈ _))

/-- **The parts may stand behind a token of the kind**: operands only behind a token that opens one, and
no closing brace is read between blocks. -/
def Orderly : Kind → List Part → Prop
  | _, [] => True
  | _, .require kind :: parts | _, .pass kind :: parts => kind ≠ .closeBrace ∧ Orderly kind parts
  | k, .operand _ _ :: parts => k.OpensOperand ∧ ∀ k, Orderly k parts
  | _, .block :: parts => ∀ k, Orderly k parts
  | k, .branch b :: parts => (b = .arguments → k = .openParen) ∧ ∀ k, Orderly k parts

/-- At a branch the rule goes on in the same way. -/
theorem Orderly.branch {k : Kind} {b : Branch} {parts : List Part}
    (h : Orderly k (.branch b :: parts)) (p : Parser) : Orderly k (b.parts p ++ parts) := by
  obtain ⟨hopen, hparts⟩ := h
  cases b with
  | arguments =>
    obtain rfl := hopen rfl
    rw [Branch.parts]
    split <;> simp [Orderly, hparts, Kind.OpensOperand]
  | _ =>
    rw [Branch.parts]
    split <;> simp [Orderly, hparts, Kind.OpensOperand]

/-- The rules of first parts are orderly. -/
theorem PrefixRule.orderly {k : Kind} {rule : PrefixRule}
    (h : Grammar.standardPrefixRule? k = some rule) : Orderly k rule.parts := by
  cases k <;> simp [Grammar.standardPrefixRule?] at h <;> subst h <;>
    simp [parts, Orderly, Kind.OpensOperand]

/-- So are those of operators and calls. -/
theorem InfixRule.orderly {k : Kind} {op : Operator} (h : Grammar.standardOperator? k = some op) :
    Orderly k (op.rule.parts op.power) := by
  cases k <;> simp [Grammar.standardOperator?] at h <;> subst h <;>
    simp [parts, Orderly, Kind.OpensOperand]

/-- So are those of statements. -/
theorem StatementRule.orderly (k : Kind) :
    Orderly k ((Grammar.standardStatementRule? k).getD .expression).parts := by
  cases k <;> simp [Grammar.standardStatementRule?, parts, Orderly, Kind.OpensOperand]

/-- The operator ahead has an orderly rule. -/
theorem Parser.Standard.orderly_operator {p : Parser} (hp : p.Standard) {power : Power} {op : Operator}
    (h : p.operatorAhead? power = some op) :
    Orderly p.advance.current.kind (op.rule.parts op.power) := by
  rw [operatorAhead?, hp.operator?_eq, Option.filter_eq_some_iff] at h
  rw [current_advance]
  exact InfixRule.orderly h.1

/-! ### Where a routine may start -/

/-- **An expression may be asked for** at the current token, which is no closing brace unless the token
before it opens an operand. -/
def Parser.Sanctions (p : Parser) : Prop :=
  p.current.kind = .closeBrace → (p.tokenAt (p.index - 1)).kind.OpensOperand

/-- Behind a token that opens an operand an expression may be asked for. -/
theorem Parser.sanctions_advance {p : Parser} (h : p.current.kind.OpensOperand) :
    p.advance.Sanctions := by
  intro _
  rw [(later_advance p).tokenAt_eq, advance_index, Nat.add_sub_cancel]
  exact h

/-- Whether the parts of the routine are orderly behind the current token. -/
def Routine.Orderly (p : Parser) : Routine → Prop
  | first rule => MonkeySyntax.Orderly p.current.kind rule.parts
  | statementBy rule => MonkeySyntax.Orderly p.current.kind rule.parts
  | rest _ _ parts => MonkeySyntax.Orderly p.current.kind parts
  | _ => True

/-- Whether the routine may ask for an expression at once. -/
def Routine.Sanctioned (p : Parser) : Routine → Prop
  | expression _ | statement | statementBy _ => p.Sanctions
  | program => False
  | _ => True

variable {free : Parser → Prop} {routine : Routine} {p q : Parser} {ok : Bool} {log : List Event}

/-- **At a closing brace an expression is asked for only behind a token that opens an operand**, by
induction on the course. -/
theorem Course.sanctioned (h : Course free routine p ok log q) (hp : p.Standard)
    (horderly : routine.Orderly p) (hstart : routine.Sanctioned p) :
    ∀ e ∈ log, e.Asks → e.before.Sanctions := by
  induction h with
  | refused => exact List.forall_mem_singleton.2 fun _ => hstart
  | opened _ _ ih =>
    simp only [List.forall_mem_cons, List.forall_mem_append]
    exact ⟨fun _ => hstart, ih (hp.withDepth _) trivial trivial, by simp, by simp⟩
  | noExpression | invalidInteger | missing | blockMissing | unclosed => simp
  | operatorsEnd | done | closed | programEnd => simp
  | firstFails hrule _ ih =>
    exact ih hp (PrefixRule.orderly (hp.prefixRule?_eq ▸ hrule)) trivial
  | firstRead hrule hfirst _ ih ih' =>
    exact List.forall_mem_append.2
      ⟨ih hp (PrefixRule.orderly (hp.prefixRule?_eq ▸ hrule)) trivial,
        ih' (hp.later hfirst.later) trivial trivial⟩
  | first _ _ ih => exact ih hp horderly trivial
  | operatorFails hoperator _ ih =>
    exact List.forall_mem_cons.2 ⟨by simp, ih hp.advance (hp.orderly_operator hoperator) trivial⟩
  | operatorRead hoperator hrest _ ih ih' =>
    simp only [List.forall_mem_cons, List.forall_mem_append]
    exact ⟨by simp, ih hp.advance (hp.orderly_operator hoperator) trivial,
      ih' (hp.advance.later hrest.later) trivial trivial⟩
  | @required _ _ _ _ _ p _ _ _ hpeek _ ih | @passed _ _ _ _ _ p _ _ _ hpeek _ ih =>
    refine List.forall_mem_cons.2 ⟨by simp, ih hp.advance ?_ trivial⟩
    rw [Routine.Orderly, Parser.current_advance, hpeek]
    exact horderly.2
  | operand _ hvalue _ ih ih' =>
    -- here nobody looks, but the token passed is one that opens an operand
    simp only [List.forall_mem_cons, List.forall_mem_append]
    exact ⟨by simp, ih hp.advance trivial (Parser.sanctions_advance horderly.1),
      ih' (hp.advance.later hvalue.later) (horderly.2 _) trivial⟩
  | blockFails _ _ ih => exact List.forall_mem_cons.2 ⟨by simp, ih hp.advance trivial trivial⟩
  | blockRead _ hblock _ ih ih' =>
    simp only [List.forall_mem_cons, List.forall_mem_append]
    exact ⟨by simp, ih hp.advance trivial trivial,
      ih' (hp.advance.later hblock.later) (horderly _) trivial⟩
  | @branch _ _ _ _ _ p _ _ _ ih => exact ih hp (Orderly.branch horderly p) trivial
  | @statement p _ _ _ _ ih =>
    refine ih hp ?_ hstart
    rw [Routine.Orderly, hp.statementRule?_eq]
    exact StatementRule.orderly _
  | keyword _ _ ih => exact ih hp horderly trivial
  | expressionStatement hvalue _ ih ih' =>
    refine List.forall_mem_append.2 ⟨ih hp trivial hstart, ih' (hp.later hvalue.later) ?_ trivial⟩
    simp [Routine.Orderly, StatementRule.parts, MonkeySyntax.Orderly]
  | block _ _ ih => exact List.forall_mem_cons.2 ⟨by simp, ih hp.advance trivial trivial⟩
  | item hopen _ hstatement _ ih ih' =>
    -- a statement is read only where the block is not over
    simp only [List.forall_mem_cons, List.forall_mem_append]
    exact ⟨ih hp trivial fun hclose => absurd hclose hopen, by simp,
      ih' (hp.later hstatement.later).advance trivial trivial⟩
  | programItem => exact hstart.elim

end MonkeySyntax
