import MonkeySyntax.Proofs.Parsing.StepRelation
import MonkeySyntax.Proofs.Tree.Descent

/-! # How deep what is read may be

Each expression is read with one level less than the one around it, so no tree is deeper than the
levels allow. Only the steps inside count: a left operand and a callee were read before.

* **`ParseM.Gives limit P m`** — under a limit on nesting, what the action gives is as `P` says.
* **`gives_exprWithin`** — an expression stays within the levels that it is read with.
* **`gives_parseProgram`** — the statements of a program stay within the limit. -/

namespace MonkeySyntax

open Parsing

namespace ParseM

variable {α β : Type} {limit : Nat} {P : α → Prop} {Q : β → Prop}

/-- **What an action gives** under the limit is as `P` says, and the limit stays. -/
def Gives (limit : Nat) (P : α → Prop) (m : ParseM α) : Prop :=
  ∀ p, p.grammar.depthLimit = limit →
    (m.exec p).2.grammar.depthLimit = limit ∧ ∀ a, (m.exec p).1 = some a → P a

theorem Gives.bind {m : ParseM α} {f : α → ParseM β} (hm : Gives limit P m)
    (hf : ∀ a, P a → Gives limit Q (f a)) : Gives limit Q (m >>= f) := by
  intro p hp
  obtain ⟨hlimit, hgives⟩ := hm p hp
  rcases hrun : m.exec p with ⟨_ | a, q⟩
  · rw [exec_bind_none hrun]
    rw [hrun] at hlimit
    exact ⟨hlimit, by simp⟩
  · rw [exec_bind_some hrun]
    rw [hrun] at hlimit hgives
    exact hf a (hgives a rfl) q hlimit

theorem Gives.imp {Q : α → Prop} {m : ParseM α} (hm : Gives limit P m) (h : ∀ a, P a → Q a) :
    Gives limit Q m :=
  fun p hp => (hm p hp).imp_right fun hgives a ha => h a (hgives a ha)

theorem Gives.get_bind {f : Parser → ParseM β}
    (hf : ∀ p, p.grammar.depthLimit = limit → Gives limit Q (f p)) : Gives limit Q (get >>= f) := by
  intro p hp
  rw [exec_bind_some (exec_get p)]
  exact hf p hp p hp

theorem gives_pure {a : α} (h : P a) : Gives limit P (pure a) :=
  fun _ hp => ⟨hp, fun _ hb => Option.some.inj hb ▸ h⟩

/-- An action that changes the parser but not the limit. -/
theorem gives_modify {f : Parser → Parser} (hf : ∀ p, (f p).grammar = p.grammar) :
    Gives limit (fun _ : PUnit => True) (modify f) := by
  intro p hp
  rw [exec_modify]
  exact ⟨by rw [hf, hp], fun _ _ => trivial⟩

theorem gives_advance : Gives limit (fun _ => True) advance :=
  gives_modify Parser.advance_grammar

theorem gives_currentToken : Gives limit (fun _ => True) currentToken :=
  .get_bind fun _ _ => gives_pure trivial

theorem gives_advanceIf (condition : Parser → Bool) :
    Gives limit (fun _ => True) (advanceIf condition) :=
  gives_modify fun p => by split <;> simp

theorem gives_reject (cause : Cause) (token : Token) : Gives limit P (reject cause token) := by
  intro p hp
  rw [exec_reject]
  exact ⟨hp, by simp⟩

theorem gives_tooDeep : Gives limit P tooDeep :=
  .get_bind fun _ _ => gives_reject _ _

theorem gives_expect (kind : Kind) : Gives limit (fun _ => True) (expect kind) := by
  refine .get_bind fun p _ => ?_
  split
  · exact gives_advance.bind fun _ _ => gives_currentToken
  · exact gives_reject _ _

/-- What was taken for an answer is a value as `P` says, if it is one. -/
theorem Gives.attempt {m : ParseM α} (hm : Gives limit P m) :
    Gives limit (∀ a, · = some a → P a) (attempt m) := by
  intro p hp
  rw [exec_attempt]
  refine ⟨(hm p hp).1, fun o ho a ha => (hm p hp).2 a ?_⟩
  rw [Option.some.inj ho, ha]

theorem gives_getM {o : Option α} (h : ∀ a, o = some a → P a) :
    Gives limit P (o.getM : ParseM α) := by
  cases o with
  | none => exact fun p hp => ⟨hp, fun a ha => absurd ha (by simp [Option.getM])⟩
  | some a => exact gives_pure (h a rfl)

theorem Gives.map {m : ParseM α} {f : α → β} (hm : Gives limit P m) (hf : ∀ a, P a → Q (f a)) :
    Gives limit Q (f <$> m) := by
  rw [← bind_pure_comp]
  exact hm.bind fun a ha => gives_pure (hf a ha)

theorem Gives.nested {m : ParseM α} (hm : Gives limit P m) : Gives limit P (nested m) := by
  intro p hp
  rw [exec_nested]
  split
  · exact hm (p.withDepth (p.depth + 1)) hp
  · exact ⟨hp, by simp⟩

theorem Gives.collectWhile {condition : Parser → Bool} {item : ParseM α}
    (hitem : Gives limit P item) : Gives limit (∀ a ∈ ·, P a) (collectWhile condition item) := by
  refine .get_bind fun p _ => ?_
  generalize p.remaining = n
  induction n with
  | zero => exact gives_pure (by simp)
  | succ n ih =>
    refine .get_bind fun q _ => ?_
    split
    · exact hitem.bind fun a ha => ih.bind fun as has =>
        gives_pure (List.forall_mem_cons.2 ⟨ha, has⟩)
    · exact gives_pure (by simp)

theorem gives_skipSemicolons : Gives limit (fun _ => True) skipSemicolons :=
  gives_advance.collectWhile.bind fun _ _ => gives_pure trivial

end ParseM

namespace Parsing

open ParseM

section Rules

variable {limit n : Nat} {expr : Power → ParseM Expr}
  (hexpr : ∀ power, Gives limit (Expr.Within n) (expr power))
include hexpr

/-! ### Statements and blocks -/

/-- A statement stays within the levels of its expression. -/
theorem gives_statement : Gives limit (Statement.Within n) (statement expr) := by
  refine .get_bind fun p _ => ?_
  cases (p.grammar.statementRule? p.current.kind).getD .expression with
  | binding =>
    exact gives_currentToken.bind fun _ _ => (gives_expect _).bind fun _ _ =>
      (gives_expect _).bind fun _ _ => gives_advance.bind fun _ _ =>
      (hexpr _).attempt.bind fun value hvalue => gives_skipSemicolons.bind fun _ _ =>
      gives_pure hvalue
  | returning =>
    exact gives_currentToken.bind fun _ _ => gives_advance.bind fun _ _ =>
      (hexpr _).attempt.bind fun value hvalue => gives_skipSemicolons.bind fun _ _ =>
      gives_pure hvalue
  | expression =>
    exact (hexpr _).attempt.bind fun value hvalue => (gives_advanceIf _).bind fun _ _ =>
      (gives_getM hvalue).map fun x hx y hy => Option.some.inj hy ▸ hx

theorem gives_blockItem :
    Gives limit (∀ s, · = some s → s.Within n) (blockItem expr) := by
  refine .get_bind fun p _ => ?_
  split
  · exact gives_reject _ _
  · exact (gives_statement hexpr).attempt.bind fun result hresult =>
      gives_advance.bind fun _ _ => gives_pure hresult

omit hexpr in
/-- Statements that could be read are among the items. -/
theorem within_filterMap {items : List (Option Statement)}
    (h : ∀ o ∈ items, ∀ s, o = some s → s.Within n) :
    ∀ s ∈ items.filterMap id, s.Within n := by
  intro s hs
  obtain ⟨o, ho, rfl⟩ := List.mem_filterMap.1 hs
  exact h _ ho s rfl

theorem gives_block : Gives limit (Block.Within n) (block expr) :=
  gives_currentToken.bind fun _ _ => gives_advance.bind fun _ _ =>
    (gives_blockItem hexpr).collectWhile.bind fun _ hitems =>
    gives_pure (within_filterMap hitems)

/-! ### First parts and operators -/

theorem gives_otherwise : Gives limit (∀ b, · = some b → b.Within n) (otherwise expr) := by
  refine .get_bind fun p _ => ?_
  split
  · exact gives_advance.bind fun _ _ => (gives_expect _).bind fun _ _ =>
      (gives_block hexpr).map fun b hb c hc => Option.some.inj hc ▸ hb
  · exact gives_pure (by simp)

omit hexpr in
theorem gives_parameters : Gives limit (fun _ => True) parameters := by
  have hparameter : Gives limit (fun _ => True) parameter :=
    (gives_expect _).map fun _ _ => trivial
  refine .get_bind fun p _ => ?_
  split
  · exact gives_advance.bind fun _ _ => gives_pure trivial
  · exact hparameter.bind fun _ _ =>
      (gives_advance.bind fun _ _ => hparameter).collectWhile.bind fun _ _ =>
      (gives_expect _).bind fun _ _ => gives_pure trivial

/-- A first part stays within one more level than what is inside it. -/
theorem gives_prefixBy (rule : PrefixRule) :
    Gives limit (Expr.Within (n + 1)) (prefixBy expr rule) := by
  cases rule with
  | identifier =>
    exact gives_currentToken.bind fun _ _ => gives_pure (Expr.within_succ nofun)
  | integer =>
    refine gives_currentToken.bind fun token _ => ?_
    cases integerValue? token.text with
    | none => exact gives_reject _ _
    | some value => exact gives_pure (Expr.within_succ nofun)
  | boolean => exact gives_currentToken.bind fun _ _ => gives_pure (Expr.within_succ nofun)
  | unary =>
    exact gives_currentToken.bind fun _ _ => gives_advance.bind fun _ _ =>
      (hexpr _).attempt.bind fun x hx => gives_pure (Expr.within_prefixOp hx)
  | grouping =>
    exact gives_advance.bind fun _ _ => (hexpr _).attempt.bind fun x hx =>
      (gives_expect _).bind fun _ _ => gives_getM fun y hy => (hx y hy).succ
  | conditional =>
    exact gives_currentToken.bind fun _ _ => (gives_expect _).bind fun _ _ =>
      gives_advance.bind fun _ _ => (hexpr _).attempt.bind fun c hc =>
      (gives_expect _).bind fun _ _ => (gives_expect _).bind fun _ _ =>
      (gives_block hexpr).bind fun a ha => (gives_otherwise hexpr).bind fun b hb =>
      gives_pure (Expr.within_conditional hc ha hb)
  | function =>
    exact gives_currentToken.bind fun _ _ => (gives_expect _).bind fun _ _ =>
      gives_parameters.bind fun _ _ => (gives_expect _).bind fun _ _ =>
      (gives_block hexpr).bind fun b hb => gives_pure (Expr.within_function hb)

theorem gives_argument : Gives limit (∀ x, · = some x → x.Within n) (argument expr) :=
  gives_advance.bind fun _ _ => (hexpr _).attempt

omit hexpr in
/-- The values of a list that is there are among its items. -/
theorem mem_of_mapM_id {α : Type} {os : List (Option α)} {as : List α} (h : os.mapM id = some as)
    {a : α} (ha : a ∈ as) : some a ∈ os := by
  induction os generalizing as with
  | nil =>
    obtain rfl : [] = as := Option.some.inj h
    exact absurd ha List.not_mem_nil
  | cons o os ih =>
    rw [List.mapM_cons] at h
    cases o with
    | none => exact absurd h (by simp)
    | some b =>
      cases hos : os.mapM id with
      | none => exact absurd h (by simp [hos])
      | some bs =>
        obtain rfl : b :: bs = as := by simpa [hos] using h
        rcases List.mem_cons.1 ha with rfl | ha
        · exact List.mem_cons_self
        · exact List.mem_cons_of_mem _ (ih hos ha)

theorem gives_arguments : Gives limit (∀ x ∈ ·, x.Within n) (arguments expr) := by
  refine .get_bind fun p _ => ?_
  split
  · exact gives_advance.bind fun _ _ => gives_pure (by simp)
  · refine (gives_argument hexpr).bind fun first hfirst =>
      (gives_advance.bind fun _ _ => gives_argument hexpr).collectWhile.bind fun others hothers =>
      (gives_expect _).bind fun _ _ => gives_getM fun xs hxs x hx => ?_
    exact List.forall_mem_cons.2 ⟨hfirst, hothers⟩ _ (mem_of_mapM_id hxs hx) x rfl

/-- What continues an expression leaves it within its levels. -/
theorem gives_infixBy (rule : InfixRule) {left : Expr} (hleft : left.Within (n + 1))
    (power : Power) : Gives limit (Expr.Within (n + 1)) (infixBy expr rule left power) := by
  cases rule with
  | binary =>
    exact gives_currentToken.bind fun _ _ => gives_advance.bind fun _ _ =>
      (hexpr _).attempt.bind fun right hright => gives_pure (Expr.within_infixOp hleft hright)
  | call =>
    exact gives_currentToken.bind fun _ _ => (gives_arguments hexpr).bind fun xs hxs =>
      gives_pure (Expr.within_call hleft hxs)

theorem gives_continueWithin (power : Power) (fuel : Nat) {left : Expr}
    (hleft : left.Within (n + 1)) :
    Gives limit (Expr.Within (n + 1)) (continueWithin expr power fuel left) := by
  induction fuel generalizing left with
  | zero => exact gives_pure hleft
  | succ fuel ih =>
    refine .get_bind fun p _ => ?_
    split
    · exact gives_pure hleft
    · exact gives_advance.bind fun _ _ => (gives_infixBy hexpr _ hleft _).bind fun x hx => ih hx

theorem gives_climb (power : Power) : Gives limit (Expr.Within (n + 1)) (climb expr power) := by
  refine .get_bind fun p _ => ?_
  split
  · exact gives_reject _ _
  · exact (gives_prefixBy hexpr _).bind fun left hleft => .get_bind fun q _ =>
      gives_continueWithin hexpr power q.remaining hleft

end Rules

variable {limit : Nat}

/-- **An expression stays within the levels that it is read with**, by induction on them. -/
theorem gives_exprWithin (levels : Nat) (power : Power) :
    Gives limit (Expr.Within levels) (exprWithin levels power) := by
  induction levels generalizing power with
  | zero => exact gives_tooDeep
  | succ levels ih => exact (gives_climb ih power).nested

theorem gives_parseExpr (power : Power) : Gives limit (Expr.Within limit) (parseExpr power) := by
  refine .get_bind fun p hp => (gives_exprWithin p.levels power).imp fun x hx k y hy => ?_
  exact Nat.lt_of_lt_of_le (hx k y hy) (hp ▸ Nat.sub_le _ _)

/-- **The statements of a program stay within the limit.** -/
theorem gives_parseProgram :
    Gives limit (fun program => ∀ s ∈ program.statements, s.Within limit) parseProgram := by
  have hitem : Gives limit (∀ s, · = some s → s.Within limit) programItem :=
    (gives_statement gives_parseExpr).attempt.bind fun result hresult =>
      (gives_modify fun p => by split <;> rfl).bind fun _ _ =>
      gives_advance.bind fun _ _ => gives_pure hresult
  exact hitem.collectWhile.bind fun items hitems => gives_pure (within_filterMap hitems)

end Parsing

end MonkeySyntax
