import MonkeySyntax.Proofs.Parsing.Progress

/-! # Which token answers for a diagnostic

One broken token may break everything around it, and each construct that it breaks says so. Still no
token answers for more than one diagnostic: an expression that fails is reported at its first token and
ends there, and a construct stops at the first token that it misses.

* `Kind.required`: the tokens that a construct requires behind the one that opens it.
* **`Token.AnswersFor t d`** — the token accounts for the diagnostic.
* `Part.required`, `Branch.required`: what is required by a part of a rule.
* `Routine.Answers`: the tokens that may answer for the diagnostics of a routine.
* **`Course.charged`** — along a course each diagnostic has a token of its own that answers for it. -/

namespace MonkeySyntax

/-! ### What is required -/

/-- The kinds of token that a construct requires behind the token that opens it. -/
def Kind.required : Kind → List Kind
  | kwLet => [.identifier, .assign]
  | kwIf => [.openParen, .closeParen, .openBrace]
  | kwFn => [.openParen, .identifier, .closeParen, .openBrace]
  | openParen => [.closeParen]
  | openBrace => [.closeBrace]
  | _ => []

/-- **The token answers for the diagnostic**: it opens a construct that misses a token which it
requires, or it is the first token of an expression that fails. -/
def Token.AnswersFor (t : Token) : Diagnostic → Prop
  | ⟨.unexpectedToken expected _ _, _⟩ => expected ∈ t.kind.required
  | ⟨.noExpression kind, position⟩ => kind = t.kind ∧ position = t.span.start
  | ⟨.invalidInteger literal, position⟩ => literal = t.text ∧ position = t.span.start
  | ⟨.nestingTooDeep _, position⟩ => position = t.span.start

/-- What is required from a branch on. -/
def Branch.required : Branch → List Kind
  | otherwise => [.openBrace]
  | parameters | furtherParameters => [.identifier, .closeParen]
  | arguments | furtherArguments => [.closeParen]
  | semicolons | semicolon => []

/-- What is required by a part of a rule. -/
def Part.required : Part → List Kind
  | require kind => [kind]
  | block => [.openBrace]
  | branch b => b.required
  | pass _ | operand .. => []

/-- What is required by the parts of a rule. -/
def requiredBy (parts : List Part) : List Kind :=
  parts.flatMap Part.required

@[simp] theorem requiredBy_cons (part : Part) (parts : List Part) :
    requiredBy (part :: parts) = part.required ++ requiredBy parts := List.flatMap_cons

theorem mem_requiredBy {part : Part} {k : Kind} (h : k ∈ part.required) (parts : List Part) :
    k ∈ requiredBy (part :: parts) := by
  rw [requiredBy_cons]
  exact List.mem_append_left _ h

/-- What is left of a rule requires nothing more than all of it. -/
theorem requiredBy_subset_cons (part : Part) (parts : List Part) :
    requiredBy parts ⊆ requiredBy (part :: parts) := by
  rw [requiredBy_cons]
  exact List.subset_append_right _ _

/-- What comes next at a branch requires nothing more than the branch may. -/
theorem requiredBy_branch (b : Branch) (p : Parser) (parts : List Part) :
    requiredBy (b.parts p ++ parts) ⊆ requiredBy (.branch b :: parts) := by
  have hnext : requiredBy (b.parts p) ⊆ b.required := by
    cases b <;> rw [Branch.parts] <;> split <;>
      simp [requiredBy, Part.required, Branch.required]
  rw [requiredBy, List.flatMap_append, requiredBy_cons]
  exact List.append_subset.2 ⟨List.subset_append_of_subset_left _ hnext,
    List.subset_append_right _ _⟩

/-- A first part requires what its first token does. -/
theorem PrefixRule.required_parts {k : Kind} {rule : PrefixRule}
    (h : Grammar.standardPrefixRule? k = some rule) : requiredBy rule.parts ⊆ k.required := by
  cases k <;> simp [Grammar.standardPrefixRule?] at h <;> subst h <;>
    simp [parts, requiredBy, Part.required, Branch.required, Kind.required]

/-- An operator or a call requires what its token does. -/
theorem InfixRule.required_parts {k : Kind} {op : Operator}
    (h : Grammar.standardOperator? k = some op) :
    requiredBy (op.rule.parts op.power) ⊆ k.required := by
  cases k <;> simp [Grammar.standardOperator?] at h <;> subst h <;>
    simp [parts, requiredBy, Part.required, Branch.required, Kind.required]

/-- A statement requires what its first token does. -/
theorem StatementRule.required_parts (k : Kind) :
    requiredBy ((Grammar.standardStatementRule? k).getD .expression).parts ⊆ k.required := by
  cases k <;> simp [Grammar.standardStatementRule?, parts, requiredBy, Part.required,
    Branch.required, Kind.required]

/-! ### Tokens that answer -/

/-- **The tokens that may answer** for the diagnostics of a routine: those from the current one on,
without the current one where it has been read already, and the token on whose behalf a rule goes on,
as long as it still requires something. -/
def Routine.Answers (routine : Routine) (p : Parser) (c : Nat) : Prop :=
  match routine with
  | operators _ => p.index < c
  | rest opener _ parts => (c = opener ∧ ∃ k, k ∈ requiredBy parts) ∨ p.index < c
  | items opener => c = opener ∨ p.index ≤ c
  | expression _ | climb _ | first _ | statement | statementBy _ | block | program => p.index ≤ c

/-- **What a routine relies on**: it starts before the end of the source or at it, and the token on
whose behalf it works requires all that the routine does. -/
def Routine.Relies (routine : Routine) (n : Nat) (p : Parser) : Prop :=
  match routine with
  | expression _ | climb _ | statement => p.index ≤ n
  | first rule => p.index ≤ n ∧ requiredBy rule.parts ⊆ p.current.kind.required
  | statementBy rule => p.index ≤ n ∧ requiredBy rule.parts ⊆ p.current.kind.required
  | rest opener _ parts =>
    opener ≤ p.index ∧ opener ≤ n ∧ requiredBy parts ⊆ (p.tokenAt opener).kind.required
  | block => p.current.kind = .openBrace
  | items opener => opener < p.index ∧ opener ≤ n ∧ (p.tokenAt opener).kind = .openBrace
  | operators _ | program => True

/-- **Each diagnostic of a log has a token of its own** that answers for it, one of those that may. -/
structure Charged (n : Nat) (answers : Nat → Prop) (p q : Parser) (log : List Event) : Prop where
  /-- No token answers twice. -/
  nodup : ((log.filterMap Event.note?).map Prod.fst).Nodup
  /-- It is one of those that may answer. -/
  answers : ∀ note ∈ log.filterMap Event.note?, answers note.1
  /-- It has been looked at. -/
  le_index : ∀ note ∈ log.filterMap Event.note?, note.1 ≤ q.index
  /-- It does not lie behind the end of the source. -/
  le_end : ∀ note ∈ log.filterMap Event.note?, note.1 ≤ n
  /-- It accounts for the diagnostic. -/
  answersFor : ∀ note ∈ log.filterMap Event.note?, (p.tokenAt note.1).AnswersFor note.2

section Charged

variable {n : Nat} {answers answers' answers'' : Nat → Prop} {p p' q q' r : Parser}
  {log log' : List Event}

/-- Without diagnostics nothing has to answer. -/
theorem charged_nil : Charged n answers p q [] := by
  constructor <;> simp

/-- The token of a single diagnostic. -/
theorem charged_singleton {e : Event} {c : Nat} {d : Diagnostic} (hnote : e.note? = some (c, d))
    (hanswers : answers c) (hindex : c ≤ q.index) (hend : c ≤ n)
    (hfor : (p.tokenAt c).AnswersFor d) : Charged n answers p q [e] := by
  constructor <;> simp [hnote, hanswers, hindex, hend, hfor]

/-- What is charged depends only on the diagnostics and the tokens. -/
theorem Charged.congr (h : Charged n answers p q log)
    (hnotes : log'.filterMap Event.note? = log.filterMap Event.note?)
    (htoken : ∀ i, p'.tokenAt i = p.tokenAt i) (hindex : q.index ≤ q'.index)
    (himp : ∀ c, answers c → answers' c) : Charged n answers' p' q' log' := by
  obtain ⟨hnodup, hanswers, hle, hend, hfor⟩ := h
  refine ⟨?_, ?_, ?_, ?_, ?_⟩ <;> rw [hnotes]
  · exact hnodup
  · exact fun note hnote => himp _ (hanswers note hnote)
  · exact fun note hnote => Nat.le_trans (hle note hnote) hindex
  · exact hend
  · exact fun note hnote => (htoken note.1).symm ▸ hfor note hnote

theorem Charged.imp (h : Charged n answers p q log) (himp : ∀ c, answers c → answers' c) :
    Charged n answers' p q log :=
  h.congr rfl (fun _ => rfl) le_rfl himp

/-- One token forward needs no answer. -/
theorem Charged.advance (h : Charged n answers p.advance q log)
    (himp : ∀ c, answers c → answers' c) : Charged n answers' p q (⟨p, .advance⟩ :: log) :=
  h.congr rfl (fun i => ((Parser.later_advance p).tokenAt_eq i).symm) le_rfl himp

/-- **One part behind another**: the tokens that answer for the second are not those that have been
looked at in the first and answer there. -/
theorem Charged.append (h : Charged n answers p q log) (h' : Charged n answers' q r log')
    (hpq : Parser.Later p q) (hqr : Parser.Later q r)
    (hdisjoint : ∀ c, answers c → c ≤ q.index → ¬ answers' c)
    (himp : ∀ c, answers c ∨ answers' c → answers'' c) :
    Charged n answers'' p r (log ++ log') := by
  refine ⟨?_, ?_, ?_, ?_, ?_⟩ <;> rw [List.filterMap_append]
  · rw [List.map_append]
    refine List.nodup_append.2 ⟨h.nodup, h'.nodup, fun c hc d hd hcd => ?_⟩
    obtain ⟨note, hnote, rfl⟩ := List.mem_map.1 hc
    obtain ⟨note', hnote', rfl⟩ := List.mem_map.1 hd
    exact hdisjoint _ (h.answers note hnote) (h.le_index note hnote)
      (hcd ▸ h'.answers note' hnote')
  · exact List.forall_mem_append.2 ⟨fun note hnote => himp _ (.inl (h.answers note hnote)),
      fun note hnote => himp _ (.inr (h'.answers note hnote))⟩
  · exact List.forall_mem_append.2
      ⟨fun note hnote => Nat.le_trans (h.le_index note hnote) hqr.index_le, h'.le_index⟩
  · exact List.forall_mem_append.2 ⟨h.le_end, h'.le_end⟩
  · exact List.forall_mem_append.2
      ⟨h.answersFor, fun note hnote => hpq.tokenAt_eq note.1 ▸ h'.answersFor note hnote⟩

end Charged

section Relies

variable {n opener : Nat} {whole whole' : Bool} {parts parts' : List Part} {p q : Parser}

/-- A rule that goes on requires nothing more than before. -/
theorem Routine.Relies.rest (h : (Routine.rest opener whole parts).Relies n p)
    (hpq : Parser.Later p q) (hparts : requiredBy parts' ⊆ requiredBy parts) :
    (Routine.rest opener whole' parts').Relies n q := by
  obtain ⟨hopener, hend, hrequired⟩ := h
  refine ⟨Nat.le_trans hopener hpq.index_le, hend, fun k hk => ?_⟩
  rw [hpq.tokenAt_eq]
  exact hrequired (hparts hk)

/-- The token of an operator requires all that belongs to the operator. -/
theorem relies_operator {power : Power} {op : Operator} (hp : p.EndsAt n)
    (h : p.operatorAhead? power = some op) :
    (Routine.rest p.advance.index true (op.rule.parts op.power)).Relies n p.advance := by
  have hlt := hp.lt_of_operator h
  have htoken : p.advance.tokenAt p.advance.index = p.peek := Parser.current_advance p
  rw [Parser.operatorAhead?, hp.standard.operator?_eq, Option.filter_eq_some_iff] at h
  refine ⟨le_rfl, ?_, ?_⟩
  · rw [Parser.advance_index]
    omega
  · rw [htoken]
    exact InfixRule.required_parts h.1

/-- A block starts with its brace. -/
theorem relies_block (hpeek : p.peek.kind = .openBrace) : Routine.block.Relies n p.advance := by
  rw [Routine.Relies, Parser.current_advance]
  exact hpeek

/-- The brace of a block requires the one that closes it. -/
theorem relies_items (hp : p.EndsAt n) (hinside : p.BeforeEnd) (h : Routine.block.Relies n p) :
    (Routine.items p.index).Relies n p.advance := by
  refine ⟨by simp, Nat.le_of_lt (hp.lt_of_beforeEnd hinside), ?_⟩
  rw [(Parser.later_advance p).tokenAt_eq]
  exact h

theorem Routine.Relies.items (h : (Routine.items opener).Relies n p) (hpq : Parser.Later p q) :
    (Routine.items opener).Relies n q := by
  obtain ⟨hopener, hend, hkind⟩ := h
  refine ⟨Nat.lt_of_lt_of_le hopener hpq.index_le, hend, ?_⟩
  rw [hpq.tokenAt_eq]
  exact hkind

/-- A token is passed and the rule goes on. -/
theorem Charged.passed {part : Part} {log : List Event}
    (h : Charged n ((Routine.rest opener whole parts).Answers p.advance) p.advance q log) :
    Charged n ((Routine.rest opener whole (part :: parts)).Answers p) p q (⟨p, .advance⟩ :: log) := by
  refine h.advance fun c hc => ?_
  rcases hc with ⟨hc, k, hk⟩ | hc
  · exact .inl ⟨hc, k, requiredBy_subset_cons part parts hk⟩
  · rw [Parser.advance_index] at hc
    exact .inr (Nat.lt_of_succ_lt hc)

/-- **A part of a rule and what follows it**: what answers in the part lies between the token on whose
behalf the rule goes on and what follows. -/
theorem Charged.part {part : Part} {r : Parser} {log log' : List Event}
    (hrely : (Routine.rest opener whole (part :: parts)).Relies n p)
    (h : Charged n (p.advance.index ≤ ·) p.advance q log) (hpq : Parser.Later p.advance q)
    (h' : Charged n ((Routine.rest opener whole' parts).Answers q) q r log')
    (hqr : Parser.Later q r) :
    Charged n ((Routine.rest opener whole (part :: parts)).Answers p) p r
      (⟨p, .advance⟩ :: (log ++ log')) := by
  have hopener := hrely.1
  have hindex := hpq.index_le
  refine (h.append h' hpq hqr (fun c hc hle => ?_) fun c => id).advance fun c hc => ?_
  · rw [Parser.advance_index] at hc
    rintro (⟨rfl, -⟩ | hlt) <;> omega
  · rw [Parser.advance_index] at hc hindex
    rcases hc with hc | ⟨hc, k, hk⟩ | hc
    · exact .inr hc
    · exact .inl ⟨hc, k, requiredBy_subset_cons part parts hk⟩
    · exact .inr (by omega)

end Relies

namespace Course

variable {n : Nat} {routine : Routine} {p q : Parser} {ok : Bool} {log : List Event}

/-- **Along a course each diagnostic has a token of its own that answers for it**, by induction on the
course. -/
theorem charged (h : Course Parser.BeforeEnd routine p ok log q) (hp : p.EndsAt n)
    (hrely : routine.Relies n p) : Charged n (routine.Answers p) p q log := by
  induction h with
  | refused => exact charged_singleton rfl le_rfl le_rfl hrely rfl
  | noExpression => exact charged_singleton rfl le_rfl le_rfl hrely ⟨rfl, rfl⟩
  | invalidInteger => exact charged_singleton rfl le_rfl le_rfl hrely.1 ⟨rfl, rfl⟩
  | operatorsEnd | done | closed | programEnd => exact charged_nil
  | opened _ _ ih =>
    exact (ih (hp.withDepth _) hrely).congr (by simp [List.filterMap_cons]) (fun _ => rfl) le_rfl
      fun _ => id
  | firstFails hrule _ ih =>
    exact ih hp ⟨hrely, PrefixRule.required_parts (hp.standard.prefixRule?_eq ▸ hrule)⟩
  | firstRead hrule hfirst hmore ih ih' =>
    have hrely' := PrefixRule.required_parts (hp.standard.prefixRule?_eq ▸ hrule)
    have hindex := hfirst.later.index_le
    exact (ih hp ⟨hrely, hrely'⟩).append (ih' (hp.later hfirst.later) trivial) hfirst.later
      hmore.later (fun c _ hle => Nat.not_lt.2 hle) fun c hc => by
        simp only [Routine.Answers] at hc ⊢
        omega
  | first _ _ ih | keyword _ _ ih =>
    refine (ih hp ⟨le_rfl, hrely⟩).imp fun c hc => ?_
    simp only [Routine.Answers] at hc ⊢
    omega
  | operatorFails hoperator _ ih =>
    refine (ih hp.advance (relies_operator hp hoperator)).advance fun c hc => ?_
    simp only [Routine.Answers, Parser.advance_index] at hc ⊢
    omega
  | operatorRead hoperator hrest hmore ih ih' =>
    have hindex := hrest.later.index_le
    rw [Parser.advance_index] at hindex
    refine ((ih hp.advance (relies_operator hp hoperator)).append
      (ih' (hp.advance.later hrest.later) trivial) hrest.later hmore.later
      (fun c _ hle => Nat.not_lt.2 hle) fun c hc => hc).advance fun c hc => ?_
    simp only [Routine.Answers, Parser.advance_index] at hc ⊢
    omega
  | @missing _ _ kind parts =>
    -- the rule stops here, so its opener has not answered before and will not do so again
    have hmem : kind ∈ requiredBy (.require kind :: parts) :=
      mem_requiredBy (List.mem_singleton_self kind) parts
    exact charged_singleton rfl (.inl ⟨rfl, kind, hmem⟩) hrely.1 hrely.2.1 (hrely.2.2 hmem)
  | @blockMissing _ _ parts =>
    have hmem : .openBrace ∈ requiredBy (.block :: parts) :=
      mem_requiredBy (List.mem_singleton_self Kind.openBrace) parts
    exact charged_singleton rfl (.inl ⟨rfl, _, hmem⟩) hrely.1 hrely.2.1 (hrely.2.2 hmem)
  | required _ _ _ ih | passed _ _ _ ih =>
    exact (ih hp.advance (hrely.rest (Parser.later_advance _) (requiredBy_subset_cons _ _))).passed
  | operand hfree hvalue hrest ih ih' =>
    -- the operand starts behind the opener, which is therefore left to answer for the rest of the rule
    have hlt := hp.lt_of_beforeEnd hfree
    have hlater := (Parser.later_advance _).trans hvalue.later
    refine .part hrely (ih hp.advance ?_) hvalue.later (ih' (hp.later hlater) ?_) hrest.later
    · show Parser.index _ ≤ n
      rw [Parser.advance_index]
      exact hlt
    · exact hrely.rest hlater (requiredBy_subset_cons _ _)
  | blockFails hpeek _ ih =>
    refine (ih hp.advance (relies_block hpeek)).advance fun c hc => .inr ?_
    rw [Routine.Answers, Parser.advance_index] at hc
    exact hc
  | blockRead hpeek hblock hrest ih ih' =>
    have hlater := (Parser.later_advance _).trans hblock.later
    exact .part hrely (ih hp.advance (relies_block hpeek)) hblock.later
      (ih' (hp.later hlater) (hrely.rest hlater (requiredBy_subset_cons _ _))) hrest.later
  | branch _ ih =>
    refine (ih hp (hrely.rest (Parser.later_refl _) (requiredBy_branch _ _ _))).imp fun c hc => ?_
    exact hc.imp_left fun ⟨hc, k, hk⟩ => ⟨hc, k, requiredBy_branch _ _ _ hk⟩
  | statement _ ih =>
    refine ih hp ⟨hrely, ?_⟩
    rw [hp.standard.statementRule?_eq]
    exact StatementRule.required_parts _
  | expressionStatement hvalue hrest ih ih' =>
    -- behind the expression nothing is required, so its first token is not asked a second time
    have hindex := hvalue.later.index_le
    have hnone : requiredBy StatementRule.expression.parts = [] := rfl
    refine (ih hp hrely.1).append (ih' (hp.later hvalue.later) ?_) hvalue.later hrest.later
      (fun c _ hle => ?_) fun c hc => ?_
    · exact ⟨hindex, hrely.1, by rw [hnone]; exact List.nil_subset _⟩
    · simp only [Routine.Answers, hnone]
      simpa using hle
    · simp only [Routine.Answers, hnone] at hc ⊢
      simp at hc
      omega
  | block hfree _ ih =>
    -- the brace answers for the brace that closes the block, and nothing inside reaches back to it
    refine (ih hp.advance (relies_items hp hfree hrely)).advance fun c hc => ?_
    simp only [Routine.Answers, Parser.advance_index] at hc ⊢
    omega
  | unclosed =>
    refine charged_singleton rfl (.inl rfl) (Nat.le_of_lt hrely.1) hrely.2.1 ?_
    show Kind.closeBrace ∈ Kind.required _
    rw [hrely.2.2]
    simp [Kind.required]
  | item _ hinside hstatement hmore ih ih' =>
    -- the next statement starts behind all that this one has looked at
    have hlt := hp.lt_of_beforeEnd hinside
    have hopener := hrely.1
    have hindex := hstatement.later.index_le
    have hlater := hstatement.later.trans (Parser.later_advance _)
    refine (ih hp (Nat.le_of_lt hlt)).append ((ih' (hp.later hlater) (hrely.items hlater)).advance
      fun c hc => hc) hstatement.later ((Parser.later_advance _).trans hmore.later)
      (fun c hc hle => ?_) fun c hc => ?_
    · simp only [Routine.Answers, Parser.advance_index] at hc ⊢
      omega
    · simp only [Routine.Answers, Parser.advance_index] at hc ⊢
      omega
  | @programItem p q r found _ log log' hinside hstatement hmore ih ih' =>
    -- the same with a step between that adds no diagnostic
    have hlt := hp.lt_of_beforeEnd hinside
    have hindex := hstatement.later.index_le
    have hlater := hstatement.later.trans (later_restart found q)
    have hrestart : ((Step.restart found).apply q).index = q.index := by cases found <;> rfl
    have hrest := (ih' (hp.later hlater).advance trivial).advance fun c hc => hc
    have hrest' : Charged n (q.index + 1 ≤ ·) q r (⟨q, .restart found⟩ ::
        ⟨(Step.restart found).apply q, .advance⟩ :: log') := by
      refine hrest.congr (by simp [List.filterMap_cons])
        (fun i => ((later_restart found q).tokenAt_eq i).symm) le_rfl fun c hc => ?_
      simpa only [Routine.Answers, Parser.advance_index, hrestart] using hc
    refine (ih hp (Nat.le_of_lt hlt)).append hrest' hstatement.later
      ((later_restart found q).trans ((Parser.later_advance _).trans hmore.later))
      (fun c hc hle => by omega) fun c hc => ?_
    simp only [Routine.Answers] at hc ⊢
    omega

end Course

end MonkeySyntax
