import MonkeySyntax.Proofs.Parsing.Later

/-! # Failures are reported

An action may fail, and some rules take a failure for an answer and go on. In either case something
has been reported by then.

* **`ParseM.Candid P m`** — where `m` gives no value as `P` says, it has reported something.
* `candid_exprWithin`, `candid_parseExpr` — expressions are candid, and with them all the rules:
  what is absent from a tree is missing there because of a diagnostic. -/

namespace MonkeySyntax

open Parsing

namespace ParseM

variable {α β : Type}

/-- Every value will do. -/
def Given : α → Prop := fun _ => True

/-- **An action is candid** when it leads to later parsers only and reports something wherever it
gives no value as `P` says. -/
structure Candid (P : α → Prop) (m : ParseM α) : Prop where
  /-- The action moves forward. -/
  keeps : Keeps Parser.Later m
  /-- The action does not fail in silence. -/
  reports : ∀ p, p.diagnostics.size < (m.exec p).2.diagnostics.size ∨
    ∃ a, (m.exec p).1 = some a ∧ P a

/-! ### Candid actions -/

/-- A sequence is candid when its second part is so behind the values that the first one stands up
for. -/
theorem Candid.bind_of {P : α → Prop} {Q : β → Prop} {m : ParseM α} {f : α → ParseM β}
    (hm : Candid P m) (hkeeps : ∀ a, Keeps Parser.Later (f a)) (hf : ∀ a, P a → Candid Q (f a)) :
    Candid Q (m >>= f) where
  keeps := hm.keeps.bind Parser.stepRelation_later hkeeps
  reports := by
    intro p
    have hreports := hm.reports p
    have hpq := (hm.keeps p).size_le
    rcases hrun : m.exec p with ⟨_ | a, q⟩
    · rw [exec_bind_none hrun]
      rw [hrun] at hreports
      rcases hreports with h | ⟨a, ha, -⟩
      · exact .inl h
      · exact absurd ha (by simp)
    · rw [exec_bind_some hrun]
      rw [hrun] at hreports hpq
      rcases hreports with h | ⟨b, hb, hP⟩
      · exact .inl (lt_of_lt_of_le h (hkeeps a q).size_le)
      · obtain rfl : a = b := Option.some.inj hb
        rcases (hf a hP).reports q with h | h
        · exact .inl (lt_of_le_of_lt hpq h)
        · exact .inr h

/-- A sequence of candid actions is candid. -/
theorem Candid.bind {P : α → Prop} {Q : β → Prop} {m : ParseM α} {f : α → ParseM β}
    (hm : Candid P m) (hf : ∀ a, Candid Q (f a)) : Candid Q (m >>= f) :=
  hm.bind_of (fun a => (hf a).keeps) fun a _ => hf a

theorem Candid.imp {P Q : α → Prop} {m : ParseM α} (hm : Candid P m) (h : ∀ a, P a → Q a) :
    Candid Q m where
  keeps := hm.keeps
  reports p := (hm.reports p).imp_right fun ⟨a, ha, hP⟩ => ⟨a, ha, h a hP⟩

theorem Candid.get_bind {Q : β → Prop} {f : Parser → ParseM β} (hf : ∀ p, Candid Q (f p)) :
    Candid Q (get >>= f) where
  keeps := Keeps.get_bind fun p => (hf p).keeps p
  reports p := (hf p).reports p

theorem candid_pure {P : α → Prop} {a : α} (h : P a) : Candid P (pure a) where
  keeps := keeps_pure Parser.stepRelation_later a
  reports _ := .inr ⟨a, rfl, h⟩

theorem candid_advance : Candid Given advance where
  keeps := keeps_advance Parser.stepRelation_later
  reports _ := .inr ⟨(), rfl, trivial⟩

theorem candid_currentToken : Candid Given currentToken where
  keeps := keeps_currentToken Parser.stepRelation_later
  reports p := .inr ⟨p.current, rfl, trivial⟩

theorem candid_advanceIf (condition : Parser → Bool) : Candid Given (advanceIf condition) where
  keeps := keeps_advanceIf Parser.stepRelation_later condition
  reports _ := .inr ⟨(), rfl, trivial⟩

/-- A report makes one more diagnostic. -/
@[simp] theorem size_diagnostics_report (p : Parser) (cause : Cause) (token : Token) :
    (p.report cause token).diagnostics.size = p.diagnostics.size + 1 := by
  simp [Parser.report]

theorem candid_tooDeep (P : α → Prop) : Candid P tooDeep where
  keeps p := Parser.stepRelation_later.tooDeep p
  reports p := .inl (by simp)

theorem candid_expect (kind : Kind) : Candid Given (expect kind) where
  keeps := keeps_expect Parser.stepRelation_later kind
  reports p := by
    rw [exec_expect]
    split
    · exact .inr ⟨p.peek, rfl, trivial⟩
    · exact .inl (by simp)

/-- What was taken for an answer is a value unless something was reported. -/
theorem Candid.attempt {P : α → Prop} {m : ParseM α} (hm : Candid P m) :
    Candid (∃ a, · = some a ∧ P a) (attempt m) where
  keeps := hm.keeps.attempt
  reports p := (hm.reports p).imp_right fun ⟨a, ha, hP⟩ => ⟨some a, by rw [exec_attempt, ha], a, rfl, hP⟩

/-- A value that is there can be taken out. -/
theorem candid_getM {P : α → Prop} {o : Option α} (h : ∃ a, o = some a ∧ P a) :
    Candid P (o.getM : ParseM α) := by
  obtain ⟨a, rfl, hP⟩ := h
  exact candid_pure hP

theorem Candid.map {P : α → Prop} {Q : β → Prop} {m : ParseM α} {f : α → β} (hm : Candid P m)
    (hf : ∀ a, P a → Q (f a)) : Candid Q (f <$> m) := by
  rw [← bind_pure_comp]
  exact hm.bind_of (fun a => keeps_pure Parser.stepRelation_later (f a)) fun a ha =>
    candid_pure (hf a ha)

theorem Candid.nested {P : α → Prop} {m : ParseM α} (hm : Candid P m) : Candid P (nested m) where
  keeps := hm.keeps.nested Parser.stepRelation_later
  reports p := by
    rw [exec_nested]
    split
    · exact hm.reports (p.withDepth (p.depth + 1))
    · exact .inl (by simp)

/-- A list is collected from values that are as they should be. -/
theorem Candid.collectWithin {P : α → Prop} {condition : Parser → Bool} {item : ParseM α}
    (hitem : Candid P item) (n : Nat) :
    Candid (∀ a ∈ ·, P a) (collectWithin condition item n) := by
  induction n with
  | zero => exact candid_pure (by simp)
  | succ n ih =>
    refine Candid.get_bind fun p => ?_
    split
    · refine hitem.bind_of (fun a => ?_) fun a ha => ih.bind_of (fun rest => ?_) fun rest hrest => ?_
      · exact ih.keeps.bind Parser.stepRelation_later fun rest =>
          keeps_pure Parser.stepRelation_later _
      · exact keeps_pure Parser.stepRelation_later _
      · exact candid_pure (List.forall_mem_cons.2 ⟨ha, hrest⟩)
    · exact candid_pure (by simp)

theorem Candid.collectWhile {P : α → Prop} {condition : Parser → Bool} {item : ParseM α}
    (hitem : Candid P item) : Candid (∀ a ∈ ·, P a) (collectWhile condition item) :=
  Candid.get_bind fun p => hitem.collectWithin p.remaining

theorem candid_skipSemicolons : Candid Given skipSemicolons :=
  candid_advance.collectWhile.bind fun _ => candid_pure trivial

end ParseM

namespace Parsing

open ParseM

section Rules

variable {expr : Power → ParseM Expr} (hexpr : ∀ power, Candid Given (expr power))
include hexpr

theorem candid_binding : Candid Given (binding expr) :=
  candid_currentToken.bind fun _ => (candid_expect _).bind fun _ => (candid_expect _).bind fun _ =>
    candid_advance.bind fun _ => (hexpr _).attempt.bind fun _ => candid_skipSemicolons.bind fun _ =>
    candid_pure trivial

theorem candid_returning : Candid Given (returning expr) :=
  candid_currentToken.bind fun _ => candid_advance.bind fun _ => (hexpr _).attempt.bind fun _ =>
    candid_skipSemicolons.bind fun _ => candid_pure trivial

theorem candid_expressionStatement : Candid Given (expressionStatement expr) := by
  refine (hexpr _).attempt.bind_of (fun value => ?_) fun value hvalue => ?_
  · exact (candid_advanceIf _).keeps.bind Parser.stepRelation_later fun _ =>
      (keeps_getM Parser.stepRelation_later value).map Parser.stepRelation_later _
  · exact (candid_advanceIf _).bind fun _ => (candid_getM hvalue).map fun _ _ => trivial

/-- Statements are candid when expressions are. -/
theorem candid_statement : Candid Given (statement expr) := by
  refine Candid.get_bind fun p => ?_
  cases (p.grammar.statementRule? p.current.kind).getD .expression with
  | binding => exact candid_binding hexpr
  | returning => exact candid_returning hexpr
  | expression => exact candid_expressionStatement hexpr

/-- Where nothing is reported an item of a block is a statement. -/
theorem candid_blockItem : Candid (∃ s, · = some s ∧ Given s) (blockItem expr) where
  keeps := keeps_blockItem Parser.stepRelation_later fun power => (hexpr power).keeps
  reports p := by
    rw [blockItem, exec_bind_some (exec_get p)]
    split
    · exact .inl (by simp)
    · refine ((candid_statement hexpr).attempt.bind_of (fun result => ?_) fun result h => ?_).reports p
      · exact (keeps_advance Parser.stepRelation_later).bind Parser.stepRelation_later fun _ =>
          keeps_pure Parser.stepRelation_later result
      · exact candid_advance.bind fun _ => candid_pure h

/-- Blocks are candid when expressions are. -/
theorem candid_block : Candid Given (block expr) :=
  candid_currentToken.bind fun _ => candid_advance.bind fun _ =>
    (candid_blockItem hexpr).collectWhile.bind fun _ => candid_pure trivial

theorem candid_unary : Candid Given (unary expr) :=
  candid_currentToken.bind fun _ => candid_advance.bind fun _ => (hexpr _).attempt.bind fun _ =>
    candid_pure trivial

theorem candid_grouping : Candid Given (grouping expr) := by
  refine candid_advance.bind fun _ => (hexpr _).attempt.bind_of (fun inner => ?_) fun inner h => ?_
  · exact (candid_expect _).keeps.bind Parser.stepRelation_later fun _ =>
      keeps_getM Parser.stepRelation_later inner
  · exact (candid_expect _).bind fun _ => candid_getM h

theorem candid_otherwise : Candid Given (otherwise expr) := by
  refine Candid.get_bind fun p => ?_
  split
  · exact candid_advance.bind fun _ => (candid_expect _).bind fun _ =>
      (candid_block hexpr).map fun _ _ => trivial
  · exact candid_pure trivial

theorem candid_conditional : Candid Given (conditional expr) :=
  candid_currentToken.bind fun _ => (candid_expect _).bind fun _ => candid_advance.bind fun _ =>
    (hexpr _).attempt.bind fun _ => (candid_expect _).bind fun _ => (candid_expect _).bind fun _ =>
    (candid_block hexpr).bind fun _ => (candid_otherwise hexpr).bind fun _ => candid_pure trivial

omit hexpr in
theorem candid_parameter : Candid Given parameter :=
  (candid_expect _).map fun _ _ => trivial

omit hexpr in
theorem candid_parameters : Candid Given parameters := by
  refine Candid.get_bind fun p => ?_
  split
  · exact candid_advance.bind fun _ => candid_pure trivial
  · exact candid_parameter.bind fun _ =>
      (candid_advance.bind fun _ => candid_parameter).collectWhile.bind fun _ =>
      (candid_expect _).bind fun _ => candid_pure trivial

theorem candid_function : Candid Given (function expr) :=
  candid_currentToken.bind fun _ => (candid_expect _).bind fun _ => candid_parameters.bind fun _ =>
    (candid_expect _).bind fun _ => (candid_block hexpr).bind fun _ => candid_pure trivial

omit hexpr in
/-- A number without a value is reported. -/
theorem candid_integer_reports (p : Parser) :
    p.diagnostics.size < (integer.exec p).2.diagnostics.size ∨
      ∃ a, (integer.exec p).1 = some a ∧ Given a := by
  rw [integer, exec_bind_some (exec_currentToken p)]
  cases integerValue? p.current.text with
  | none => exact .inl (by simp)
  | some value => exact .inr ⟨.integer p.current value, rfl, trivial⟩

/-- First parts are never given up in silence. -/
theorem reports_prefixBy (rule : PrefixRule) (p : Parser) :
    p.diagnostics.size < ((prefixBy expr rule).exec p).2.diagnostics.size ∨
      ∃ a, ((prefixBy expr rule).exec p).1 = some a ∧ Given a := by
  cases rule with
  | identifier => exact .inr ⟨_, rfl, trivial⟩
  | integer => exact candid_integer_reports p
  | boolean => exact .inr ⟨_, rfl, trivial⟩
  | unary => exact (candid_unary hexpr).reports p
  | grouping => exact (candid_grouping hexpr).reports p
  | conditional => exact (candid_conditional hexpr).reports p
  | function => exact (candid_function hexpr).reports p

theorem candid_binary (left : Expr) (power : Power) : Candid Given (binary expr left power) :=
  candid_currentToken.bind fun _ => candid_advance.bind fun _ => (hexpr _).attempt.bind fun _ =>
    candid_pure trivial

theorem candid_argument : Candid (∃ x, · = some x ∧ Given x) (argument expr) :=
  candid_advance.bind fun _ => (hexpr _).attempt

omit hexpr in
/-- Values that are all there make up a list of values. -/
theorem exists_eq_map_some {α : Type} {os : List (Option α)}
    (h : ∀ o ∈ os, ∃ a, o = some a ∧ Given a) : ∃ as : List α, os = as.map some := by
  induction os with
  | nil => exact ⟨[], rfl⟩
  | cons o os ih =>
    obtain ⟨⟨a, rfl, -⟩, hrest⟩ := List.forall_mem_cons.1 h
    obtain ⟨as, rfl⟩ := ih hrest
    exact ⟨a :: as, rfl⟩

omit hexpr in
/-- Values that are all there can be taken out together. -/
@[simp] theorem mapM_id_map_some {α : Type} (as : List α) : (as.map some).mapM id = some as := by
  induction as with
  | nil => rfl
  | cons a as ih => simp [ih]

/-- A broken argument is reported, so the list is given up only behind a report. -/
theorem candid_arguments : Candid Given (arguments expr) := by
  have hothers : Candid _ (collectWhile (peekIs .comma) (do advance; argument expr)) :=
    (candid_advance.bind fun _ => candid_argument hexpr).collectWhile
  have hclose (items : List (Option Expr)) :
      Keeps Parser.Later (do let _ ← expect .closeParen; (items.mapM id).getM) :=
    (candid_expect .closeParen).keeps.bind Parser.stepRelation_later fun _ =>
      keeps_getM Parser.stepRelation_later (items.mapM id)
  refine Candid.get_bind fun p => ?_
  split
  · exact candid_advance.bind fun _ => candid_pure trivial
  · refine (candid_argument hexpr).bind_of (fun first => ?_) fun first hfirst =>
      hothers.bind_of (fun others => ?_) fun others hall => ?_
    · exact hothers.keeps.bind Parser.stepRelation_later fun others => hclose (first :: others)
    · exact hclose (first :: others)
    · obtain ⟨as, has⟩ := exists_eq_map_some (List.forall_mem_cons.2 ⟨hfirst, hall⟩)
      refine (candid_expect _).bind fun _ => candid_getM ⟨as, ?_, trivial⟩
      rw [has, mapM_id_map_some]

theorem candid_call (callee : Expr) : Candid Given (call expr callee) :=
  candid_currentToken.bind fun _ => (candid_arguments hexpr).bind fun _ => candid_pure trivial

theorem candid_infixBy (rule : InfixRule) (left : Expr) (power : Power) :
    Candid Given (infixBy expr rule left power) := by
  cases rule with
  | binary => exact candid_binary hexpr left power
  | call => exact candid_call hexpr left

theorem candid_continueWithin (power : Power) (n : Nat) (left : Expr) :
    Candid Given (continueWithin expr power n left) := by
  induction n generalizing left with
  | zero => exact candid_pure trivial
  | succ n ih =>
    refine Candid.get_bind fun p => ?_
    split
    · exact candid_pure trivial
    · exact candid_advance.bind fun _ => (candid_infixBy hexpr _ _ _).bind fun x => ih x

theorem candid_climb (power : Power) : Candid Given (climb expr power) where
  keeps := keeps_climb Parser.stepRelation_later (fun power => (hexpr power).keeps) power
  reports p := by
    rw [climb, exec_bind_some (exec_get p)]
    split
    · exact .inl (by simp)
    · next rule h =>
      have hleft := reports_prefixBy hexpr rule p
      have hlater := keeps_prefixBy Parser.stepRelation_later (fun power => (hexpr power).keeps) h
      rcases hrun : (prefixBy expr rule).exec p with ⟨_ | left, q⟩
      · rw [exec_bind_none hrun]
        rw [hrun] at hleft
        exact hleft.imp_right fun ⟨a, ha, _⟩ => absurd ha (by simp)
      · rw [hrun] at hlater
        have hcontinue := candid_continueWithin hexpr power q.remaining left
        rw [exec_bind_some hrun, exec_bind_some (exec_get q)]
        exact (hcontinue.reports q).imp_left (lt_of_le_of_lt hlater.size_le)

end Rules

/-- **Expressions are candid**, by induction on the levels that are left. -/
theorem candid_exprWithin (levels : Nat) (power : Power) :
    Candid Given (exprWithin levels power) := by
  induction levels generalizing power with
  | zero => exact candid_tooDeep Given
  | succ levels ih => exact (candid_climb ih power).nested

theorem candid_parseExpr (power : Power) : Candid Given (parseExpr power) :=
  Candid.get_bind fun p => candid_exprWithin p.levels power

end Parsing

end MonkeySyntax
