import MonkeySyntax.Proofs.Parsing.Later

/-! # The course of an action

What an action does to a parser, step by step and without the bounds that close the recursion of its
definition. Every rule is a list of parts, one behind another, so that one relation describes them
all.

* `Step`, `Event`: the steps, each with the parser that it starts from.
* **`Leads p log q`** — the steps of a log follow each other from `p` to `q`.
* `Part`, `Branch`: what the rules are made of; `PrefixRule.parts`, `InfixRule.parts` and
  `StatementRule.parts` are the rules.
* **`Course free routine p ok log q`** — the routine leads from `p` to `q` in the steps of the log and
  gives a value or not. It may move on without looking only where `free` says so.
* `Course.leads`, `Course.later`, `Course.unique` — a course is what its log says, it leads to a later
  parser, and there is only one. -/

namespace MonkeySyntax

/-! ### Steps -/

/-- **A step** of a parser. -/
inductive Step where
  /-- One token forward. -/
  | advance
  /-- A diagnostic at the token with the number `place`. The token with the number `opener` answers
  for it. -/
  | report (cause : Cause) (place opener : Nat)
  /-- A diagnostic at the current token, where no further expression may be opened. -/
  | refuse
  /-- An expression is opened. -/
  | enter
  /-- An expression is closed. -/
  | leave
  /-- A statement of the program is over, and the trace starts anew if it is complete. -/
  | restart (complete : Bool)
  deriving DecidableEq

/-- What a step does. -/
def Step.apply (p : Parser) : Step → Parser
  | advance => p.advance
  | report cause place _ => p.report cause (p.tokenAt place)
  | refuse => p.report (.nestingTooDeep p.grammar.depthLimit) p.current
  | enter => p.withDepth (p.depth + 1)
  | leave => p.withDepth (p.depth - 1)
  | restart complete => if complete then p.clearTrace else p

/-- **An event**: a step and the parser that it starts from. -/
structure Event where
  /-- The parser before the step. -/
  before : Parser
  /-- The step. -/
  step : Step

/-- The parser behind an event. -/
def Event.after (e : Event) : Parser :=
  e.step.apply e.before

/-- The diagnostic that an event adds, with the number of the token that answers for it. -/
def Event.note? (e : Event) : Option (Nat × Diagnostic) :=
  match e.step with
  | .report cause place opener => some (opener, ⟨cause, (e.before.tokenAt place).span.start⟩)
  | .refuse => some (e.before.index,
      ⟨.nestingTooDeep e.before.grammar.depthLimit, e.before.current.span.start⟩)
  | _ => none

@[simp] theorem Event.note?_advance (p : Parser) : note? ⟨p, .advance⟩ = none := rfl

@[simp] theorem Event.note?_enter (p : Parser) : note? ⟨p, .enter⟩ = none := rfl

@[simp] theorem Event.note?_leave (p : Parser) : note? ⟨p, .leave⟩ = none := rfl

@[simp] theorem Event.note?_restart (p : Parser) (complete : Bool) :
    note? ⟨p, .restart complete⟩ = none := rfl

/-- **The events follow each other** from one parser to another. -/
def Leads (p : Parser) : List Event → Parser → Prop
  | [], q => q = p
  | e :: log, q => e.before = p ∧ Leads e.after log q

section Leads

variable {p q r : Parser} {log log' : List Event}

theorem Leads.append (h : Leads p log q) (h' : Leads q log' r) : Leads p (log ++ log') r := by
  induction log generalizing p with
  | nil => exact (show q = p from h) ▸ h'
  | cons e log ih => exact ⟨h.1, ih h.2⟩

/-- One event behind others. -/
theorem Leads.concat (h : Leads p log q) (step : Step) :
    Leads p (log ++ [⟨q, step⟩]) (step.apply q) :=
  h.append ⟨rfl, rfl⟩

/-- One event before others. -/
theorem Leads.cons {step : Step} (h : Leads (step.apply p) log q) : Leads p (⟨p, step⟩ :: log) q :=
  ⟨rfl, h⟩

/-- An event adds its note to the diagnostics. -/
theorem Event.diagnostics_after (e : Event) :
    e.after.diagnostics.toList =
      e.before.diagnostics.toList ++ (e.note?.map Prod.snd).toList := by
  obtain ⟨p, step⟩ := e
  cases step with
  | restart complete => cases complete <;> simp [after, Step.apply, note?, Parser.clearTrace]
  | _ => simp [after, Step.apply, note?, Parser.report]

/-- **The diagnostics** behind a log are those before it and those of its events. -/
theorem Leads.diagnostics (h : Leads p log q) :
    q.diagnostics.toList =
      p.diagnostics.toList ++ (log.filterMap Event.note?).map Prod.snd := by
  induction log generalizing p with
  | nil => rw [show q = p from h]; simp
  | cons e log ih =>
    obtain ⟨rfl, h⟩ := h
    rw [ih h, e.diagnostics_after, List.filterMap_cons]
    cases e.note? <;> simp

end Leads

/-! ### Rules -/

/-- A point of a rule where it depends on the token ahead what comes next. -/
inductive Branch where
  /-- A block behind `else`, if that comes next. -/
  | otherwise
  /-- Parameters up to the closing parenthesis, from the opening one on. -/
  | parameters
  /-- Parameters up to the closing parenthesis, from behind one of them on. -/
  | furtherParameters
  /-- Arguments up to the closing parenthesis, from the opening one on. -/
  | arguments
  /-- Arguments up to the closing parenthesis, from behind one of them on. -/
  | furtherArguments
  /-- All semicolons that come next. -/
  | semicolons
  /-- A semicolon, if that comes next. -/
  | semicolon

/-- **A part of a rule.** -/
inductive Part where
  /-- A token of the given kind is required. -/
  | require (kind : Kind)
  /-- The token ahead is passed; it is known to be of the given kind. -/
  | pass (kind : Kind)
  /-- One token forward and an expression from there on. Without it the rule goes on, but gives no
  value if it is `spoilt`. -/
  | operand (spoilt : Bool) (power : Power)
  /-- A block is required. Without it the rule stops. -/
  | block
  /-- What comes next depends on the token ahead. -/
  | branch (b : Branch)

/-- What comes next at a branch. -/
def Branch.parts (p : Parser) : Branch → List Part
  | otherwise => if Parsing.peekIs .kwElse p then [.pass .kwElse, .block] else []
  | parameters =>
    if Parsing.peekIs .closeParen p then [.pass .closeParen]
    else [.require .identifier, .branch furtherParameters]
  | furtherParameters =>
    if Parsing.peekIs .comma p then
      [.pass .comma, .require .identifier, .branch furtherParameters]
    else [.require .closeParen]
  | arguments =>
    if Parsing.peekIs .closeParen p then [.pass .closeParen]
    else [.operand true .lowest, .branch furtherArguments]
  | furtherArguments =>
    if Parsing.peekIs .comma p then
      [.pass .comma, .operand true .lowest, .branch furtherArguments]
    else [.require .closeParen]
  | semicolons =>
    if Parsing.peekIs .semicolon p then [.pass .semicolon, .branch semicolons] else []
  | semicolon => if Parsing.peekIs .semicolon p then [.pass .semicolon] else []

/-- The parts of a first part of an expression, behind its first token. -/
def PrefixRule.parts : PrefixRule → List Part
  | identifier | integer | boolean => []
  | unary => [.operand false .unary]
  | grouping => [.operand true .lowest, .require .closeParen]
  | conditional =>
    [.require .openParen, .operand false .lowest, .require .closeParen, .block, .branch .otherwise]
  | function => [.require .openParen, .branch .parameters, .block]

/-- The parts of what continues an expression, behind its first token. -/
def InfixRule.parts (power : Power) : InfixRule → List Part
  | binary => [.operand false power]
  | call => [.branch .arguments]

/-- The parts of a statement, behind its first token; for an expression by itself, behind the
expression. -/
def StatementRule.parts : StatementRule → List Part
  | binding =>
    [.require .identifier, .require .assign, .operand false .lowest, .branch .semicolons]
  | returning => [.operand false .lowest, .branch .semicolons]
  | expression => [.branch .semicolon]

/-! ### Courses -/

/-- **What is being done.** -/
inductive Routine where
  /-- An expression inside one more level of nesting. -/
  | expression (power : Power)
  /-- A first part and all that continues it. -/
  | climb (power : Power)
  /-- A first part. -/
  | first (rule : PrefixRule)
  /-- All that continues an expression. -/
  | operators (power : Power)
  /-- The parts of a rule, on behalf of the token with the number `opener`. The value is `whole` if
  nothing that it is made of is missing so far. -/
  | rest (opener : Nat) (whole : Bool) (parts : List Part)
  /-- A statement. -/
  | statement
  /-- A statement by the given rule. -/
  | statementBy (rule : StatementRule)
  /-- A block. -/
  | block
  /-- The statements of the block that the token with the number `opener` opens. -/
  | items (opener : Nat)
  /-- The statements of a program. -/
  | program

/-- **The course of a routine**: it leads from one parser to another in the steps of a log and gives a
value or not. Each way that a routine may take is a constructor, and no two of them start alike. -/
inductive Course (free : Parser → Prop) : Routine → Parser → Bool → List Event → Parser → Prop where
  /-- No expression is opened at the limit. -/
  | refused {power : Power} {p : Parser} (hfull : p.grammar.depthLimit ≤ p.depth) :
      Course free (.expression power) p false [⟨p, .refuse⟩]
        (p.report (.nestingTooDeep p.grammar.depthLimit) p.current)
  /-- Below the limit an expression is opened, and closed again whatever becomes of it. -/
  | opened {power : Power} {p q : Parser} {ok : Bool} {log : List Event}
      (hroom : p.depth < p.grammar.depthLimit)
      (hinside : Course free (.climb power) (p.withDepth (p.depth + 1)) ok log q) :
      Course free (.expression power) p ok (⟨p, .enter⟩ :: (log ++ [⟨q, .leave⟩]))
        (q.withDepth (q.depth - 1))
  /-- The current token starts no expression. -/
  | noExpression {power : Power} {p : Parser}
      (hrule : p.grammar.prefixRule? p.current.kind = none) :
      Course free (.climb power) p false
        [⟨p, .report (.noExpression p.current.kind) p.index p.index⟩]
        (p.report (.noExpression p.current.kind) p.current)
  /-- Without a first part there is nothing to continue. -/
  | firstFails {power : Power} {p q : Parser} {rule : PrefixRule} {log : List Event}
      (hrule : p.grammar.prefixRule? p.current.kind = some rule)
      (hfirst : Course free (.first rule) p false log q) :
      Course free (.climb power) p false log q
  /-- A first part is continued. -/
  | firstRead {power : Power} {p q r : Parser} {rule : PrefixRule} {ok : Bool}
      {log log' : List Event} (hrule : p.grammar.prefixRule? p.current.kind = some rule)
      (hfirst : Course free (.first rule) p true log q)
      (hmore : Course free (.operators power) q ok log' r) :
      Course free (.climb power) p ok (log ++ log') r
  /-- The number at the current token has no value. -/
  | invalidInteger {p : Parser} (hvalue : integerValue? p.current.text = none) :
      Course free (.first .integer) p false
        [⟨p, .report (.invalidInteger p.current.text) p.index p.index⟩]
        (p.report (.invalidInteger p.current.text) p.current)
  /-- A first part is read by its rule. -/
  | first {rule : PrefixRule} {p q : Parser} {ok : Bool} {log : List Event}
      (hvalue : rule = .integer → integerValue? p.current.text ≠ none)
      (hrest : Course free (.rest p.index true rule.parts) p ok log q) :
      Course free (.first rule) p ok log q
  /-- No operator comes next. -/
  | operatorsEnd {power : Power} {p : Parser} (hoperator : p.operatorAhead? power = none) :
      Course free (.operators power) p true [] p
  /-- What belongs to the operator ahead cannot be read. -/
  | operatorFails {power : Power} {p q : Parser} {op : Operator} {log : List Event}
      (hoperator : p.operatorAhead? power = some op)
      (hrest : Course free (.rest p.advance.index true (op.rule.parts op.power)) p.advance false log
        q) :
      Course free (.operators power) p false (⟨p, .advance⟩ :: log) q
  /-- The operator ahead is read, and the next one may follow. -/
  | operatorRead {power : Power} {p q r : Parser} {op : Operator} {ok : Bool}
      {log log' : List Event} (hoperator : p.operatorAhead? power = some op)
      (hrest : Course free (.rest p.advance.index true (op.rule.parts op.power)) p.advance true log
        q)
      (hmore : Course free (.operators power) q ok log' r) :
      Course free (.operators power) p ok (⟨p, .advance⟩ :: (log ++ log')) r
  /-- A rule is over behind its last part. -/
  | done {opener : Nat} {whole : Bool} {p : Parser} :
      Course free (.rest opener whole []) p whole [] p
  /-- The required token comes next; it is never the end of the source. -/
  | required {opener : Nat} {whole ok : Bool} {kind : Kind} {parts : List Part} {p q : Parser}
      {log : List Event} (hkind : kind ≠ .eof) (hpeek : p.peek.kind = kind)
      (hrest : Course free (.rest opener whole parts) p.advance ok log q) :
      Course free (.rest opener whole (.require kind :: parts)) p ok (⟨p, .advance⟩ :: log) q
  /-- Another token comes next, and the rule stops. -/
  | missing {opener : Nat} {whole : Bool} {kind : Kind} {parts : List Part} {p : Parser}
      (hpeek : p.peek.kind ≠ kind) :
      Course free (.rest opener whole (.require kind :: parts)) p false
        [⟨p, .report (p.unexpected kind p.peek) (p.index + 1) opener⟩]
        (p.report (p.unexpected kind p.peek) p.peek)
  /-- The token ahead is passed; it is not the end of the source either. -/
  | passed {opener : Nat} {whole ok : Bool} {kind : Kind} {parts : List Part} {p q : Parser}
      {log : List Event} (hkind : kind ≠ .eof) (hpeek : p.peek.kind = kind)
      (hrest : Course free (.rest opener whole parts) p.advance ok log q) :
      Course free (.rest opener whole (.pass kind :: parts)) p ok (⟨p, .advance⟩ :: log) q
  /-- An operand is read or not, and the rule goes on. -/
  | operand {opener : Nat} {whole spoilt found ok : Bool} {power : Power} {parts : List Part}
      {p q r : Parser} {log log' : List Event} (hfree : free p)
      (hvalue : Course free (.expression power) p.advance found log q)
      (hrest : Course free (.rest opener (whole && (found || !spoilt)) parts) q ok log' r) :
      Course free (.rest opener whole (.operand spoilt power :: parts)) p ok
        (⟨p, .advance⟩ :: (log ++ log')) r
  /-- No brace comes next, and the rule stops. -/
  | blockMissing {opener : Nat} {whole : Bool} {parts : List Part} {p : Parser}
      (hpeek : p.peek.kind ≠ .openBrace) :
      Course free (.rest opener whole (.block :: parts)) p false
        [⟨p, .report (p.unexpected .openBrace p.peek) (p.index + 1) opener⟩]
        (p.report (p.unexpected .openBrace p.peek) p.peek)
  /-- The block ahead is not closed, and the rule stops. -/
  | blockFails {opener : Nat} {whole : Bool} {parts : List Part} {p q : Parser} {log : List Event}
      (hpeek : p.peek.kind = .openBrace) (hblock : Course free .block p.advance false log q) :
      Course free (.rest opener whole (.block :: parts)) p false (⟨p, .advance⟩ :: log) q
  /-- The block ahead is read, and the rule goes on. -/
  | blockRead {opener : Nat} {whole ok : Bool} {parts : List Part} {p q r : Parser}
      {log log' : List Event} (hpeek : p.peek.kind = .openBrace)
      (hblock : Course free .block p.advance true log q)
      (hrest : Course free (.rest opener whole parts) q ok log' r) :
      Course free (.rest opener whole (.block :: parts)) p ok (⟨p, .advance⟩ :: (log ++ log')) r
  /-- The rule goes on as the token ahead says. -/
  | branch {opener : Nat} {whole ok : Bool} {b : Branch} {parts : List Part} {p q : Parser}
      {log : List Event} (hrest : Course free (.rest opener whole (b.parts p ++ parts)) p ok log q) :
      Course free (.rest opener whole (.branch b :: parts)) p ok log q
  /-- A statement is read by the rule of the current token. -/
  | statement {p q : Parser} {ok : Bool} {log : List Event}
      (hby : Course free
        (.statementBy ((p.grammar.statementRule? p.current.kind).getD .expression)) p ok log q) :
      Course free .statement p ok log q
  /-- A statement that is no expression is read from behind its first token. -/
  | keyword {rule : StatementRule} {p q : Parser} {ok : Bool} {log : List Event}
      (hrule : rule ≠ .expression) (hrest : Course free (.rest p.index true rule.parts) p ok log q) :
      Course free (.statementBy rule) p ok log q
  /-- An expression by itself is read from the current token. -/
  | expressionStatement {p q r : Parser} {found ok : Bool} {log log' : List Event}
      (hvalue : Course free (.expression .lowest) p found log q)
      (hrest : Course free (.rest p.index found StatementRule.expression.parts) q ok log' r) :
      Course free (.statementBy .expression) p ok (log ++ log') r
  /-- A block is read from behind its brace. -/
  | block {p q : Parser} {ok : Bool} {log : List Event} (hfree : free p)
      (hitems : Course free (.items p.index) p.advance ok log q) :
      Course free .block p ok (⟨p, .advance⟩ :: log) q
  /-- A closing brace ends a block. -/
  | closed {opener : Nat} {p : Parser} (hkind : p.current.kind = .closeBrace) :
      Course free (.items opener) p true [] p
  /-- The source ends inside a block. -/
  | unclosed {opener : Nat} {p : Parser} (hkind : p.current.kind = .eof) :
      Course free (.items opener) p false
        [⟨p, .report (p.unexpected .closeBrace p.current) p.index opener⟩]
        (p.report (p.unexpected .closeBrace p.current) p.current)
  /-- A statement of a block, and on from behind it. -/
  | item {opener : Nat} {p q r : Parser} {found ok : Bool} {log log' : List Event}
      (hopen : p.current.kind ≠ .closeBrace) (hinside : p.current.kind ≠ .eof)
      (hstatement : Course free .statement p found log q)
      (hmore : Course free (.items opener) q.advance ok log' r) :
      Course free (.items opener) p ok (log ++ ⟨q, .advance⟩ :: log') r
  /-- A program ends with the source. -/
  | programEnd {p : Parser} (hkind : p.current.kind = .eof) : Course free .program p true [] p
  /-- A statement of a program, and on from behind it. -/
  | programItem {p q r : Parser} {found ok : Bool} {log log' : List Event}
      (hinside : p.current.kind ≠ .eof) (hstatement : Course free .statement p found log q)
      (hmore : Course free .program ((Step.restart found).apply q).advance ok log' r) :
      Course free .program p ok
        (log ++ ⟨q, .restart found⟩ :: ⟨(Step.restart found).apply q, .advance⟩ :: log') r

namespace Course

variable {free : Parser → Prop} {routine : Routine} {p q : Parser} {ok : Bool} {log : List Event}

/-- **A course is what its log says**: each step starts where the one before it ends. -/
theorem leads (h : Course free routine p ok log q) : Leads p log q := by
  induction h with
  | refused | noExpression | invalidInteger | missing | blockMissing | unclosed => exact ⟨rfl, rfl⟩
  | operatorsEnd | done | closed | programEnd => rfl
  | opened _ _ ih => exact .cons (ih.concat .leave)
  | firstFails _ _ ih | first _ _ ih | branch _ ih | statement _ ih | keyword _ _ ih => exact ih
  | firstRead _ _ _ ih ih' | expressionStatement _ _ ih ih' => exact ih.append ih'
  | operatorFails _ _ ih | required _ _ _ ih | passed _ _ _ ih | blockFails _ _ ih | block _ _ ih =>
    exact .cons ih
  | operatorRead _ _ _ ih ih' | operand _ _ _ ih ih' | blockRead _ _ _ ih ih' =>
    exact .cons (ih.append ih')
  | item _ _ _ _ ih ih' => exact ih.append (.cons ih')
  | programItem _ _ _ ih ih' => exact ih.append (.cons (.cons ih'))

/-- The diagnostics behind a course are those before it and those of its events. -/
theorem diagnostics (h : Course free routine p ok log q) :
    q.diagnostics.toList = p.diagnostics.toList ++ (log.filterMap Event.note?).map Prod.snd :=
  h.leads.diagnostics

/-- The trace may start anew without any other change. -/
theorem later_restart (complete : Bool) (p : Parser) :
    Parser.Later p ((Step.restart complete).apply p) := by
  cases complete with
  | false => exact Parser.later_refl p
  | true => exact Parser.later_clearTrace p

open MonkeySyntax.Parser in
/-- **A course leads to a later parser.** -/
theorem later (h : Course free routine p ok log q) : Later p q := by
  induction h with
  | refused | noExpression | invalidInteger | unclosed =>
    exact later_report le_rfl (Nat.le_succ _) _
  | missing | blockMissing => exact later_report (Nat.le_succ _) le_rfl _
  | operatorsEnd | done | closed | programEnd => exact later_refl _
  | opened hroom _ ih => exact stepRelation_later.nested _ _ hroom ih
  | firstFails _ _ ih | first _ _ ih | branch _ ih | statement _ ih | keyword _ _ ih => exact ih
  | firstRead _ _ _ ih ih' | expressionStatement _ _ ih ih' => exact ih.trans ih'
  | operatorFails _ _ ih | required _ _ _ ih | passed _ _ _ ih | blockFails _ _ ih | block _ _ ih =>
    exact (later_advance _).trans ih
  | operatorRead _ _ _ ih ih' | operand _ _ _ ih ih' | blockRead _ _ _ ih ih' =>
    exact (later_advance _).trans (ih.trans ih')
  | item _ _ _ _ ih ih' => exact ih.trans ((later_advance _).trans ih')
  | programItem _ _ _ ih ih' =>
    exact ih.trans ((later_restart _ _).trans ((later_advance _).trans ih'))

/-- **There is only one course** of a routine from a given parser. -/
theorem unique {q' : Parser} {ok' : Bool} {log' : List Event} (h : Course free routine p ok log q)
    (h' : Course free routine p ok' log' q') : ok' = ok ∧ log' = log ∧ q' = q := by
  induction h generalizing ok' log' q' with
  | refused hfull =>
    cases h' with
    | refused => exact ⟨rfl, rfl, rfl⟩
    | opened hroom => omega
  | opened hroom _ ih =>
    cases h' with
    | refused => omega
    | opened _ h =>
      obtain ⟨rfl, rfl, rfl⟩ := ih h
      exact ⟨rfl, rfl, rfl⟩
  | noExpression hrule =>
    cases h' with
    | noExpression => exact ⟨rfl, rfl, rfl⟩
    | firstFails hrule' | firstRead hrule' => simp [hrule] at hrule'
  | firstFails hrule _ ih =>
    cases h' with
    | noExpression hrule' => simp [hrule] at hrule'
    | firstFails hrule' h =>
      obtain rfl := Option.some.inj (hrule.symm.trans hrule')
      exact ih h
    | firstRead hrule' h =>
      obtain rfl := Option.some.inj (hrule.symm.trans hrule')
      exact absurd (ih h).1 (by simp)
  | firstRead hrule _ _ ih ih' =>
    cases h' with
    | noExpression hrule' => simp [hrule] at hrule'
    | firstFails hrule' h =>
      obtain rfl := Option.some.inj (hrule.symm.trans hrule')
      exact absurd (ih h).1 (by simp)
    | firstRead hrule' h h' =>
      obtain rfl := Option.some.inj (hrule.symm.trans hrule')
      obtain ⟨-, rfl, rfl⟩ := ih h
      obtain ⟨rfl, rfl, rfl⟩ := ih' h'
      exact ⟨rfl, rfl, rfl⟩
  | invalidInteger hvalue =>
    cases h' with
    | invalidInteger => exact ⟨rfl, rfl, rfl⟩
    | first hvalue' => exact absurd hvalue (hvalue' rfl)
  | first hvalue _ ih =>
    cases h' with
    | invalidInteger hvalue' => exact absurd hvalue' (hvalue rfl)
    | first _ h => exact ih h
  | operatorsEnd hoperator =>
    cases h' with
    | operatorsEnd => exact ⟨rfl, rfl, rfl⟩
    | operatorFails hoperator' | operatorRead hoperator' => simp [hoperator] at hoperator'
  | operatorFails hoperator _ ih =>
    cases h' with
    | operatorsEnd hoperator' => simp [hoperator] at hoperator'
    | operatorFails hoperator' h =>
      obtain rfl := Option.some.inj (hoperator.symm.trans hoperator')
      obtain ⟨-, rfl, rfl⟩ := ih h
      exact ⟨rfl, rfl, rfl⟩
    | operatorRead hoperator' h =>
      obtain rfl := Option.some.inj (hoperator.symm.trans hoperator')
      exact absurd (ih h).1 (by simp)
  | operatorRead hoperator _ _ ih ih' =>
    cases h' with
    | operatorsEnd hoperator' => simp [hoperator] at hoperator'
    | operatorFails hoperator' h =>
      obtain rfl := Option.some.inj (hoperator.symm.trans hoperator')
      exact absurd (ih h).1 (by simp)
    | operatorRead hoperator' h h' =>
      obtain rfl := Option.some.inj (hoperator.symm.trans hoperator')
      obtain ⟨-, rfl, rfl⟩ := ih h
      obtain ⟨rfl, rfl, rfl⟩ := ih' h'
      exact ⟨rfl, rfl, rfl⟩
  | done =>
    cases h' with
    | done => exact ⟨rfl, rfl, rfl⟩
  | required _ hpeek _ ih =>
    cases h' with
    | required _ _ h =>
      obtain ⟨rfl, rfl, rfl⟩ := ih h
      exact ⟨rfl, rfl, rfl⟩
    | missing hpeek' => exact absurd hpeek hpeek'
  | missing hpeek =>
    cases h' with
    | required _ hpeek' => exact absurd hpeek' hpeek
    | missing => exact ⟨rfl, rfl, rfl⟩
  | passed _ _ _ ih =>
    cases h' with
    | passed _ _ h =>
      obtain ⟨rfl, rfl, rfl⟩ := ih h
      exact ⟨rfl, rfl, rfl⟩
  | operand _ _ _ ih ih' =>
    cases h' with
    | operand _ h h' =>
      obtain ⟨rfl, rfl, rfl⟩ := ih h
      obtain ⟨rfl, rfl, rfl⟩ := ih' h'
      exact ⟨rfl, rfl, rfl⟩
  | blockMissing hpeek =>
    cases h' with
    | blockMissing => exact ⟨rfl, rfl, rfl⟩
    | blockFails hpeek' | blockRead hpeek' => exact absurd hpeek' hpeek
  | blockFails hpeek _ ih =>
    cases h' with
    | blockMissing hpeek' => exact absurd hpeek hpeek'
    | blockFails _ h =>
      obtain ⟨-, rfl, rfl⟩ := ih h
      exact ⟨rfl, rfl, rfl⟩
    | blockRead _ h => exact absurd (ih h).1 (by simp)
  | blockRead hpeek _ _ ih ih' =>
    cases h' with
    | blockMissing hpeek' => exact absurd hpeek hpeek'
    | blockFails _ h => exact absurd (ih h).1 (by simp)
    | blockRead _ h h' =>
      obtain ⟨-, rfl, rfl⟩ := ih h
      obtain ⟨rfl, rfl, rfl⟩ := ih' h'
      exact ⟨rfl, rfl, rfl⟩
  | branch _ ih =>
    cases h' with
    | branch h => exact ih h
  | statement _ ih =>
    cases h' with
    | statement h => exact ih h
  | keyword hrule _ ih =>
    cases h' with
    | keyword _ h => exact ih h
    | expressionStatement => exact absurd rfl hrule
  | expressionStatement _ _ ih ih' =>
    cases h' with
    | keyword hrule => exact absurd rfl hrule
    | expressionStatement h h' =>
      obtain ⟨rfl, rfl, rfl⟩ := ih h
      obtain ⟨rfl, rfl, rfl⟩ := ih' h'
      exact ⟨rfl, rfl, rfl⟩
  | block _ _ ih =>
    cases h' with
    | block _ h =>
      obtain ⟨rfl, rfl, rfl⟩ := ih h
      exact ⟨rfl, rfl, rfl⟩
  | closed hkind =>
    cases h' with
    | closed => exact ⟨rfl, rfl, rfl⟩
    | unclosed hkind' => simp [hkind] at hkind'
    | item hopen => exact absurd hkind hopen
  | unclosed hkind =>
    cases h' with
    | closed hkind' => simp [hkind] at hkind'
    | unclosed => exact ⟨rfl, rfl, rfl⟩
    | item _ hinside => exact absurd hkind hinside
  | item hopen hinside _ _ ih ih' =>
    cases h' with
    | closed hkind => exact absurd hkind hopen
    | unclosed hkind => exact absurd hkind hinside
    | item _ _ h h' =>
      obtain ⟨rfl, rfl, rfl⟩ := ih h
      obtain ⟨rfl, rfl, rfl⟩ := ih' h'
      exact ⟨rfl, rfl, rfl⟩
  | programEnd hkind =>
    cases h' with
    | programEnd => exact ⟨rfl, rfl, rfl⟩
    | programItem hinside => exact absurd hkind hinside
  | programItem hinside _ _ ih ih' =>
    cases h' with
    | programEnd hkind => exact absurd hkind hinside
    | programItem _ h h' =>
      obtain ⟨rfl, rfl, rfl⟩ := ih h
      obtain ⟨rfl, rfl, rfl⟩ := ih' h'
      exact ⟨rfl, rfl, rfl⟩

end Course

end MonkeySyntax
