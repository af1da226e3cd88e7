import MonkeySyntax.Parsing.State

/-! # Parsing actions

An action changes the parser and may fail. Failure undoes nothing: what was read and reported stays.

* `ParseM`: the actions; `ParseM.exec` runs one.
* `attempt`: an action that takes another one's failure for an answer.
* `advance`, `expect`, `reject`: one token forward, a required token, a failure with a diagnostic.
* `tooDeep`: the failure of an expression that is nested beyond the limit.
* `nested`: an action inside one more open expression.
* `collectWhile`: an action repeated while a condition holds.

The lemmas `exec_pure`, `exec_bind` and their companions say what each action does to a parser.
-/

namespace MonkeySyntax

/-- An **action** on a parser that gives a value or fails. -/
abbrev ParseM := OptionT (StateM Parser)

/-- What an action gives, and the parser behind it. -/
def ParseM.exec {α : Type} (m : ParseM α) (p : Parser) : Option α × Parser :=
  m.run.run p

namespace Parsing

/-- Runs an action and gives its answer, where failure is one of the answers. -/
def attempt {α : Type} (m : ParseM α) : ParseM (Option α) :=
  OptionT.lift m.run

/-- One token forward. -/
def advance : ParseM Unit :=
  modify Parser.advance

/-- The current token. -/
def currentToken : ParseM Token :=
  return (← get).current

/-- One token forward if the condition holds. -/
def advanceIf (condition : Parser → Bool) : ParseM Unit :=
  modify fun p => if condition p then p.advance else p

/-- Fails because of the given cause at the given token. -/
def reject {α : Type} (cause : Cause) (token : Token) : ParseM α := do
  modify (·.report cause token)
  failure

/-- Moves on to a token of the required kind and gives it. If another one comes next, this is
reported and nothing is read. -/
def expect (kind : Kind) : ParseM Token := do
  let p ← get
  if p.peek.kind = kind then
    advance
    currentToken
  else
    reject (p.unexpected kind p.peek) p.peek

/-- Fails because no further expression may be opened at the current token. -/
def tooDeep {α : Type} : ParseM α := do
  let p ← get
  reject (.nestingTooDeep p.grammar.depthLimit) p.current

/-- Opens an expression; past the limit this is reported at the current token. -/
def enter : ParseM Unit := do
  let p ← get
  if p.depth < p.grammar.depthLimit then
    set { p with depth := p.depth + 1 }
  else
    tooDeep

/-- Closes an expression. -/
def leave : ParseM Unit :=
  modify fun p => { p with depth := p.depth - 1 }

/-- Runs an action **inside one more open expression**, which is closed again also on failure. -/
def nested {α : Type} (m : ParseM α) : ParseM α := do
  enter
  let result ← attempt m
  leave
  result.getM

/-- Repeats an action **while a condition holds** and collects its values; at most the given number
of times. -/
def collectWithin {α : Type} (condition : Parser → Bool) (item : ParseM α) : Nat → ParseM (List α)
  | 0 => pure []
  | n + 1 => do
    if condition (← get) then
      let a ← item
      let rest ← collectWithin condition item n
      pure (a :: rest)
    else
      pure []

/-- Repeats an action while a condition holds and collects its values. An action that reads a token
each time is not repeated more often than tokens remain. -/
def collectWhile {α : Type} (condition : Parser → Bool) (item : ParseM α) : ParseM (List α) := do
  collectWithin condition item (← get).remaining

/-- Whether a token of the given kind comes next. -/
def peekIs (kind : Kind) (p : Parser) : Bool :=
  p.peek.kind == kind

/-- Whether the current token is of the given kind. -/
def currentIs (kind : Kind) (p : Parser) : Bool :=
  p.current.kind == kind

/-- Passes over any semicolons that come next. -/
def skipSemicolons : ParseM Unit := do
  let _ ← collectWhile (peekIs .semicolon) advance

end Parsing

/-! ### Running actions -/

namespace ParseM

open Parsing

variable {α β : Type}

@[simp] theorem exec_pure (a : α) (p : Parser) : (pure a : ParseM α).exec p = (some a, p) := rfl

@[simp] theorem exec_failure (p : Parser) : (failure : ParseM α).exec p = (none, p) := rfl

@[simp] theorem exec_get (p : Parser) : (get : ParseM Parser).exec p = (some p, p) := rfl

@[simp] theorem exec_set (p q : Parser) : (set q : ParseM PUnit).exec p = (some ⟨⟩, q) := rfl

@[simp] theorem exec_modify (f : Parser → Parser) (p : Parser) :
    (modify f : ParseM PUnit).exec p = (some ⟨⟩, f p) := rfl

/-- A sequence of actions stops where one fails. -/
theorem exec_bind (m : ParseM α) (f : α → ParseM β) (p : Parser) :
    (m >>= f).exec p = match m.exec p with
      | (some a, q) => (f a).exec q
      | (none, q) => (none, q) := by
  simp only [exec, OptionT.run_bind, Option.elimM, StateT.run_bind]
  rcases m.run.run p with ⟨_ | a, q⟩ <;> rfl

/-- Behind an action that gives a value the sequence goes on with it. -/
theorem exec_bind_some {m : ParseM α} {p q : Parser} {a : α} (h : m.exec p = (some a, q))
    (f : α → ParseM β) : (m >>= f).exec p = (f a).exec q := by
  rw [exec_bind, h]

/-- An action that fails ends the sequence. -/
theorem exec_bind_none {m : ParseM α} {p q : Parser} (h : m.exec p = (none, q))
    (f : α → ParseM β) : (m >>= f).exec p = (none, q) := by
  rw [exec_bind, h]

@[simp] theorem exec_attempt (m : ParseM α) (p : Parser) :
    (attempt m).exec p = (some (m.exec p).1, (m.exec p).2) := rfl

@[simp] theorem exec_advance (p : Parser) : advance.exec p = (some ⟨⟩, p.advance) := rfl

@[simp] theorem exec_advanceIf (condition : Parser → Bool) (p : Parser) :
    (advanceIf condition).exec p = (some ⟨⟩, if condition p then p.advance else p) := rfl

@[simp] theorem exec_currentToken (p : Parser) :
    currentToken.exec p = (some p.current, p) := rfl

@[simp] theorem exec_reject (cause : Cause) (token : Token) (p : Parser) :
    (reject cause token : ParseM α).exec p = (none, p.report cause token) := rfl

/-- A required token is read, and any other one is reported. -/
theorem exec_expect (kind : Kind) (p : Parser) :
    (expect kind).exec p =
      if p.peek.kind = kind then (some p.peek, p.advance)
      else (none, p.report (p.unexpected kind p.peek) p.peek) := by
  simp only [expect, exec_bind, exec_get]
  split
  · simp [exec_bind]
  · rfl

@[simp] theorem exec_tooDeep (p : Parser) :
    (tooDeep : ParseM α).exec p =
      (none, p.report (.nestingTooDeep p.grammar.depthLimit) p.current) := rfl

/-- Below the limit an expression is opened, and at the limit this is reported. -/
theorem exec_enter (p : Parser) :
    enter.exec p =
      if p.depth < p.grammar.depthLimit then (some ⟨⟩, { p with depth := p.depth + 1 })
      else (none, p.report (.nestingTooDeep p.grammar.depthLimit) p.current) := by
  simp only [enter, exec_bind, exec_get]
  split <;> rfl

@[simp] theorem exec_leave (p : Parser) :
    leave.exec p = (some ⟨⟩, { p with depth := p.depth - 1 }) := rfl

/-- Below the limit an action runs inside one more open expression, and its answer is kept. -/
theorem exec_nested (m : ParseM α) (p : Parser) :
    (nested m).exec p =
      if p.depth < p.grammar.depthLimit then
        let (result, q) := m.exec { p with depth := p.depth + 1 }
        (result, { q with depth := q.depth - 1 })
      else (none, p.report (.nestingTooDeep p.grammar.depthLimit) p.current) := by
  by_cases h : p.depth < p.grammar.depthLimit
  · simp only [nested, exec_bind, exec_enter, if_pos h, exec_attempt, exec_leave]
    rcases m.exec { p with depth := p.depth + 1 } with ⟨_ | a, q⟩ <;> rfl
  · simp only [nested, exec_bind, exec_enter, if_neg h]

@[simp] theorem exec_collectWithin_zero (condition : Parser → Bool) (item : ParseM α)
    (p : Parser) : (collectWithin condition item 0).exec p = (some [], p) := rfl

/-- Where the condition does not hold, nothing is collected. -/
theorem exec_collectWithin_false {condition : Parser → Bool} {p : Parser}
    (h : condition p = false) (item : ParseM α) (n : Nat) :
    (collectWithin condition item (n + 1)).exec p = (some [], p) := by
  simp [collectWithin, exec_bind, h]

/-- Where the condition holds, a value is collected before all others. -/
theorem exec_collectWithin_true {condition : Parser → Bool} {p : Parser}
    (h : condition p = true) (item : ParseM α) (n : Nat) :
    (collectWithin condition item (n + 1)).exec p =
      (do let a ← item; let rest ← collectWithin condition item n; pure (a :: rest)).exec p := by
  simp only [collectWithin, exec_bind, exec_get, h, if_true]

end ParseM

end MonkeySyntax
