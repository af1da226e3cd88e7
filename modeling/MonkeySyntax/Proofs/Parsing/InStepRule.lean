import MonkeySyntax.Proofs.Parsing.InStep
import MonkeySyntax.Proofs.Tree.AlikeText

/-! # The rules stay in step

Every rule of the language keeps two parsers in step and builds trees that are alike.

* `Expr.alike?_of_rel`, `Block.alike?_of_rel` — missing children that are alike.
* `inStep_binding`, `inStep_block`, `inStep_conditional`, `inStep_arguments`, … — the rules, given that
  expressions stay in step.
* **`inStep_exprWithin`** — expressions do, by induction on the levels that are left.
* **`inStep_programItems`** — so do the statements of a program. -/

namespace MonkeySyntax

open Parsing ParseM

/-! ### Values that are alike -/

theorem Expr.alike?_of_rel {x y : Option Expr} (h : Option.Rel (Expr.alike · · = true) x y) :
    Expr.alike? x y = true := by
  cases h with
  | some h => exact h
  | none => rfl

theorem Block.alike?_of_rel {a b : Option Block} (h : Option.Rel (Block.alike · · = true) a b) :
    Block.alike? a b = true := by
  cases h with
  | some h => exact h
  | none => rfl

/-- Words that are alike are names that are alike. -/
theorem Identifier.alike_ofToken {t u : Token} (h : t.alike u = true) :
    (Identifier.ofToken t).alike (Identifier.ofToken u) = true := by
  have htext := (Token.alike_iff.1 h).2
  simp [alike, h, htext]

section Lists

variable {α β : Type} {V : α → β → Prop} {xs : List (Option α)} {ys : List (Option β)}

/-- Of values in pairs those that are there stand in pairs. -/
theorem forall₂_filterMap_id (h : List.Forall₂ (Option.Rel V) xs ys) :
    List.Forall₂ V (xs.filterMap id) (ys.filterMap id) := by
  induction h with
  | nil => exact .nil
  | cons hxy _ ih =>
    cases hxy with
    | some hxy => exact .cons hxy ih
    | none => exact ih

/-- Either all of the values in both lists are there, or in both lists one is missing. -/
theorem rel_mapM_id (h : List.Forall₂ (Option.Rel V) xs ys) :
    Option.Rel (List.Forall₂ V) (xs.mapM id) (ys.mapM id) := by
  induction h with
  | nil => exact .some .nil
  | @cons _ _ xs ys hxy _ ih =>
    rw [List.mapM_cons, List.mapM_cons]
    cases hxy with
    | none => exact .none
    | some hxy =>
      generalize xs.mapM id = rest at ih ⊢
      generalize ys.mapM id = others at ih ⊢
      cases ih with
      | none => exact .none
      | some hrest => exact .some (.cons hxy hrest)

end Lists

namespace Parsing

variable {L : Token → Token → Prop} {k : Nat} {expr : Power → ParseM Expr}

section Rules

variable (hexpr : ∀ power, InStep L k (Expr.alike · · = true) (expr power) (expr power))
include hexpr

/-! ### Statements and blocks -/

theorem inStep_binding :
    InStep L k (Statement.alike · · = true) (binding expr) (binding expr) := by
  apply inStep_currentToken.bind
  intro t u ht
  apply (inStep_expect _).bind
  intro m n hname
  apply (inStep_expect _).bind
  intro _ _ _
  apply inStep_advance.bind
  intro _ _ _
  apply (hexpr _).attempt.bind
  intro x y hx
  apply inStep_skipSemicolons.bind
  intro _ _ _
  apply inStep_pure
  rw [Statement.alike, ht, Identifier.alike_ofToken hname, Expr.alike?_of_rel hx]
  rfl

theorem inStep_returning :
    InStep L k (Statement.alike · · = true) (returning expr) (returning expr) := by
  apply inStep_currentToken.bind
  intro t u ht
  apply inStep_advance.bind
  intro _ _ _
  apply (hexpr _).attempt.bind
  intro x y hx
  apply inStep_skipSemicolons.bind
  intro _ _ _
  apply inStep_pure
  rw [Statement.alike, ht, Expr.alike?_of_rel hx]
  rfl

theorem inStep_expressionStatement :
    InStep L k (Statement.alike · · = true) (expressionStatement expr) (expressionStatement expr) := by
  apply (hexpr _).attempt.bind
  intro x y hx
  apply (inStep_advanceIf fun p q hpq => peekIs_eq hpq .semicolon).bind
  intro _ _ _
  exact (inStep_getM hx).map fun x y hxy => hxy

/-- Statements stay in step: the rule is the same for both. -/
theorem inStep_statement :
    InStep L k (Statement.alike · · = true) (statement expr) (statement expr) := by
  apply inStep_get_bind
  intro p q hpq
  rw [hpq.grammar_eq, hpq.current_kind]
  cases (q.grammar.statementRule? q.current.kind).getD .expression with
  | binding => exact inStep_binding hexpr p q hpq
  | returning => exact inStep_returning hexpr p q hpq
  | expression => exact inStep_expressionStatement hexpr p q hpq

theorem inStep_blockItem :
    InStep L k (Option.Rel (Statement.alike · · = true)) (blockItem expr) (blockItem expr) := by
  apply inStep_get_bind
  intro p q hpq
  rw [hpq.current_kind]
  by_cases heof : q.current.kind = .eof
  · rw [if_pos heof, if_pos heof, hpq.unexpected_eq _ hpq.current]
    exact agree_reject hpq _ hpq.current
  · rw [if_neg heof, if_neg heof]
    apply ((inStep_statement hexpr).attempt p q hpq).bind
    intro s r hs
    apply inStep_advance.bind
    intro _ _ _
    exact inStep_pure hs

/-- Blocks stay in step. -/
theorem inStep_block : InStep L k (Block.alike · · = true) (block expr) (block expr) := by
  apply inStep_currentToken.bind
  intro t u ht
  apply inStep_advance.bind
  intro _ _ _
  have hclose (p q : Parser) (hpq : p.InStep L k q) :
      (!currentIs .closeBrace p) = !currentIs .closeBrace q := by
    rw [currentIs_eq hpq]
  apply ((inStep_blockItem hexpr).collectWhile hclose).bind
  intro ss rs hss
  apply inStep_pure
  rw [Block.alike, ht, Statement.allAlike_of_forall₂ (forall₂_filterMap_id hss)]
  rfl

/-! ### First parts -/

omit hexpr in
theorem inStep_identifier : InStep L k (Expr.alike · · = true) identifier identifier := by
  apply inStep_currentToken.bind
  intro t u ht
  apply inStep_pure
  rw [Expr.alike, Identifier.alike_ofToken ht]

omit hexpr in
/-- A number has a value for both or for neither. -/
theorem inStep_integer : InStep L k (Expr.alike · · = true) integer integer := by
  intro p q hpq
  have hcurrent := hpq.alike hpq.current
  unfold integer
  rw [exec_bind_some (exec_currentToken p), exec_bind_some (exec_currentToken q), hpq.current_text]
  cases integerValue? q.current.text with
  | none => exact agree_reject hpq _ hpq.current
  | some value => exact inStep_pure (by simp [Expr.alike, hcurrent]) p q hpq

omit hexpr in
theorem inStep_boolean : InStep L k (Expr.alike · · = true) boolean boolean := by
  apply inStep_currentToken.bind
  intro t u ht
  have hkind := (Token.alike_iff.1 ht).1
  apply inStep_pure
  rw [Expr.alike, ht, hkind, Bool.true_and, beq_self_eq_true]

theorem inStep_unary : InStep L k (Expr.alike · · = true) (unary expr) (unary expr) := by
  apply inStep_currentToken.bind
  intro t u ht
  apply inStep_advance.bind
  intro _ _ _
  apply (hexpr _).attempt.bind
  intro x y hx
  have htext := (Token.alike_iff.1 ht).2
  apply inStep_pure
  rw [Expr.alike, ht, htext, Expr.alike?_of_rel hx, beq_self_eq_true]
  rfl

theorem inStep_grouping : InStep L k (Expr.alike · · = true) (grouping expr) (grouping expr) := by
  apply inStep_advance.bind
  intro _ _ _
  apply (hexpr _).attempt.bind
  intro x y hx
  apply (inStep_expect _).bind
  intro _ _ _
  exact inStep_getM hx

theorem inStep_otherwise :
    InStep L k (Option.Rel (Block.alike · · = true)) (otherwise expr) (otherwise expr) := by
  apply inStep_get_bind
  intro p q hpq
  rw [peekIs_eq hpq]
  by_cases helse : peekIs .kwElse q = true
  · rw [if_pos helse]
    apply (inStep_advance p q hpq).bind
    intro _ _ _
    apply (inStep_expect _).bind
    intro _ _ _
    exact (inStep_block hexpr).map fun a b hab => .some hab
  · rw [if_neg helse]
    exact inStep_pure .none p q hpq

theorem inStep_conditional :
    InStep L k (Expr.alike · · = true) (conditional expr) (conditional expr) := by
  apply inStep_currentToken.bind
  intro t u ht
  apply (inStep_expect _).bind
  intro _ _ _
  apply inStep_advance.bind
  intro _ _ _
  apply (hexpr _).attempt.bind
  intro c d hc
  apply (inStep_expect _).bind
  intro _ _ _
  apply (inStep_expect _).bind
  intro _ _ _
  apply (inStep_block hexpr).bind
  intro a b hab
  apply (inStep_otherwise hexpr).bind
  intro e f hef
  apply inStep_pure
  rw [Expr.alike, ht, Expr.alike?_of_rel hc, hab, Block.alike?_of_rel hef]
  rfl

omit hexpr in
theorem inStep_parameter : InStep L k (Identifier.alike · · = true) parameter parameter :=
  (inStep_expect _).map fun _ _ => Identifier.alike_ofToken

omit hexpr in
theorem inStep_parameters :
    InStep L k (List.Forall₂ (Identifier.alike · · = true)) parameters parameters := by
  apply inStep_get_bind
  intro p q hpq
  rw [peekIs_eq hpq]
  by_cases hclose : peekIs .closeParen q = true
  · rw [if_pos hclose]
    apply (inStep_advance p q hpq).bind
    intro _ _ _
    exact inStep_pure .nil
  · rw [if_neg hclose]
    apply (inStep_parameter p q hpq).bind
    intro a b hab
    have hfurther : InStep L k (Identifier.alike · · = true) (do advance; parameter)
        (do advance; parameter) :=
      inStep_advance.bind fun _ _ _ => inStep_parameter
    apply (hfurther.collectWhile fun p q hpq => peekIs_eq hpq .comma).bind
    intro as bs has
    apply (inStep_expect _).bind
    intro _ _ _
    exact inStep_pure (.cons hab has)

theorem inStep_function : InStep L k (Expr.alike · · = true) (function expr) (function expr) := by
  apply inStep_currentToken.bind
  intro t u ht
  apply (inStep_expect _).bind
  intro _ _ _
  apply inStep_parameters.bind
  intro as bs has
  apply (inStep_expect _).bind
  intro _ _ _
  apply (inStep_block hexpr).bind
  intro a b hab
  apply inStep_pure
  rw [Expr.alike, ht, Identifier.allAlike_of_forall₂ has, hab]
  rfl

/-- First parts stay in step. -/
theorem inStep_prefixBy (rule : PrefixRule) :
    InStep L k (Expr.alike · · = true) (prefixBy expr rule) (prefixBy expr rule) := by
  cases rule with
  | identifier => exact inStep_identifier
  | integer => exact inStep_integer
  | boolean => exact inStep_boolean
  | unary => exact inStep_unary hexpr
  | grouping => exact inStep_grouping hexpr
  | conditional => exact inStep_conditional hexpr
  | function => exact inStep_function hexpr

/-! ### Continuations -/

theorem inStep_binary {l m : Expr} (hlm : l.alike m = true) (power : Power) :
    InStep L k (Expr.alike · · = true) (binary expr l power) (binary expr m power) := by
  apply inStep_currentToken.bind
  intro t u ht
  apply inStep_advance.bind
  intro _ _ _
  apply (hexpr _).attempt.bind
  intro x y hx
  have htext := (Token.alike_iff.1 ht).2
  apply inStep_pure
  rw [Expr.alike, ht, htext, hlm, Expr.alike?_of_rel hx, beq_self_eq_true]
  rfl

theorem inStep_argument :
    InStep L k (Option.Rel (Expr.alike · · = true)) (argument expr) (argument expr) :=
  inStep_advance.bind fun _ _ _ => (hexpr _).attempt

theorem inStep_arguments :
    InStep L k (List.Forall₂ (Expr.alike · · = true)) (arguments expr) (arguments expr) := by
  apply inStep_get_bind
  intro p q hpq
  rw [peekIs_eq hpq]
  by_cases hclose : peekIs .closeParen q = true
  · rw [if_pos hclose]
    apply (inStep_advance p q hpq).bind
    intro _ _ _
    exact inStep_pure .nil
  · rw [if_neg hclose]
    apply (inStep_argument hexpr p q hpq).bind
    intro x y hx
    have hfurther : InStep L k (Option.Rel (Expr.alike · · = true)) (do advance; argument expr)
        (do advance; argument expr) :=
      inStep_advance.bind fun _ _ _ => inStep_argument hexpr
    apply (hfurther.collectWhile fun p q hpq => peekIs_eq hpq .comma).bind
    intro xs ys hxs
    apply (inStep_expect _).bind
    intro _ _ _
    exact inStep_getM (rel_mapM_id (.cons hx hxs))

theorem inStep_call {l m : Expr} (hlm : l.alike m = true) :
    InStep L k (Expr.alike · · = true) (call expr l) (call expr m) := by
  apply inStep_currentToken.bind
  intro t u ht
  apply (inStep_arguments hexpr).bind
  intro xs ys hxs
  apply inStep_pure
  rw [Expr.alike, ht, hlm, Expr.allAlike_of_forall₂ hxs]
  rfl

theorem inStep_infixBy (rule : InfixRule) {l m : Expr} (hlm : l.alike m = true) (power : Power) :
    InStep L k (Expr.alike · · = true) (infixBy expr rule l power) (infixBy expr rule m power) := by
  cases rule with
  | binary => exact inStep_binary hexpr hlm power
  | call => exact inStep_call hexpr hlm

theorem inStep_continueWithin (power : Power) (n : Nat) {l m : Expr} (hlm : l.alike m = true) :
    InStep L k (Expr.alike · · = true) (continueWithin expr power n l)
      (continueWithin expr power n m) := by
  induction n generalizing l m with
  | zero => exact inStep_pure hlm
  | succ n ih =>
    apply inStep_get_bind
    intro p q hpq
    rw [hpq.operatorAhead?_eq]
    cases q.operatorAhead? power with
    | none => exact ⟨.some hlm, hpq⟩
    | some op =>
      apply (inStep_advance p q hpq).bind
      intro _ _ _
      apply (inStep_infixBy hexpr op.rule hlm op.power).bind
      intro x y hxy
      exact ih hxy

/-! ### Whole expressions -/

theorem inStep_climb (power : Power) :
    InStep L k (Expr.alike · · = true) (climb expr power) (climb expr power) := by
  apply inStep_get_bind
  intro p q hpq
  rw [hpq.grammar_eq, hpq.current_kind]
  cases q.grammar.prefixRule? q.current.kind with
  | none => exact agree_reject hpq _ hpq.current
  | some rule =>
    apply (inStep_prefixBy hexpr rule p q hpq).bind
    intro x y hxy
    apply inStep_get_bind
    intro r s hrs
    rw [hrs.remaining_eq]
    exact inStep_continueWithin hexpr power s.remaining hxy r s hrs

end Rules

/-- **Expressions stay in step**, by induction on the levels that are left. -/
theorem inStep_exprWithin (levels : Nat) (power : Power) :
    InStep L k (Expr.alike · · = true) (exprWithin levels power) (exprWithin levels power) := by
  induction levels generalizing power with
  | zero =>
    intro p q hpq
    show Agree L k _ (tooDeep.exec p) (tooDeep.exec q)
    rw [exec_tooDeep, exec_tooDeep, hpq.grammar_eq]
    exact ⟨.none, hpq.report _ hpq.current⟩
  | succ levels ih => exact (inStep_climb ih power).nested

theorem inStep_parseExpr (power : Power) :
    InStep L k (Expr.alike · · = true) (parseExpr power) (parseExpr power) := by
  apply inStep_get_bind
  intro p q hpq
  rw [hpq.levels_eq]
  exact inStep_exprWithin q.levels power p q hpq

/-! ### Programs -/

/-- A statement of a program is read by both or given up by both. -/
theorem inStep_programItem :
    InStep L k (Option.Rel (Statement.alike · · = true)) programItem programItem := by
  have hclear (s r : Option Statement) (hs : Option.Rel (Statement.alike · · = true) s r) :
      InStep L k (fun _ _ => True) (modify fun p => if s.isSome then p.clearTrace else p)
        (modify fun p => if r.isSome then p.clearTrace else p) := by
    intro p q hpq
    cases hs with
    | some => exact ⟨.some trivial, hpq.clearTrace⟩
    | none => exact ⟨.some trivial, hpq⟩
  apply (inStep_statement inStep_parseExpr).attempt.bind
  intro s r hs
  apply (hclear s r hs).bind
  intro _ _ _
  apply inStep_advance.bind
  intro _ _ _
  exact inStep_pure hs

/-- **The statements of a program stay in step.** -/
theorem inStep_programItems :
    InStep L k (List.Forall₂ (Option.Rel (Statement.alike · · = true)))
      (collectWhile (!currentIs .eof ·) programItem)
      (collectWhile (!currentIs .eof ·) programItem) :=
  inStep_programItem.collectWhile fun p q hpq => by rw [currentIs_eq hpq]

end Parsing

end MonkeySyntax
