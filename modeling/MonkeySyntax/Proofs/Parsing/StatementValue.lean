import MonkeySyntax.Proofs.Provenance

/-! # The value of a statement

A statement is its value and the tokens before it; only semicolons are read over behind the value.

* `Statement.tokens` — the tokens that a statement keeps.
* `Parser.Gathers.sublist_take` — the tokens of some items lie on their way, and no further.
* **`Parser.ValueOf r s p value q`** — a statement that is read from `r` on has its value between `p` and
  `q`.
* `exists_valueOf_binding`, … — so do the statements of each kind; **`exists_valueOf`** — so does each
  statement. -/

namespace MonkeySyntax

open Parsing ParseM

/-- **The tokens that a statement keeps**, in the order of its items. -/
def Statement.tokens (s : Statement) : List Token :=
  s.items.filterMap Item.token?

/-- A sequence that gives a value gives it from that of its first part. -/
theorem ParseM.exists_of_exec_bind {α β : Type} {m : ParseM α} {f : α → ParseM β} {p r : Parser} {b : β}
    (h : (m >>= f).exec p = (some b, r)) :
    ∃ a q, m.exec p = (some a, q) ∧ (f a).exec q = (some b, r) := by
  rcases hrun : m.exec p with ⟨_ | a, q⟩
  · rw [exec_bind_none hrun] at h
    exact absurd h (by simp)
  · rw [exec_bind_some hrun] at h
    exact ⟨a, q, rfl, h⟩

namespace Parser

variable {r p q o : Parser} {s : Statement} {value : Option Expr} {items : List Item}

/-- The tokens of the items lie on the way up to its last token. -/
theorem Gathers.sublist_take (h : r.Gathers items q) (hr : r.Standard) :
    (items.filterMap Item.token?).Sublist (r.rest.take (q.index + 1 - r.index)) := by
  obtain ⟨ts, hrest, htokens⟩ := h.sublist hr
  have hle := h.later.index_le
  have htail : q.rest.tail = r.rest.drop (q.index + 1 - r.index) := by
    rw [rest, rest, List.tail_drop, List.drop_drop, h.later.tokens_eq]
    congr 1
    omega
  rw [htail] at hrest
  have hsplit := (List.take_append_drop (q.index + 1 - r.index) r.rest).trans hrest
  rwa [List.append_cancel_right hsplit]

/-- **The statement that is read from `r` on has its value between `p` and `q`**. Before the value no
semicolon is read over; a value that cannot be read leaves no token. -/
structure ValueOf (r : Parser) (s : Statement) (p : Parser) (value : Option Expr) (q : Parser) :
    Prop where
  /-- The value comes later. -/
  later : Later r p
  /-- There is no semicolon before it. -/
  lead : ∀ i, r.index ≤ i → i < p.index → (r.tokenAt i).kind ≠ .semicolon
  /-- It is read there. -/
  exec : (parseExpr .lowest).exec p = (value, q)
  /-- All tokens of the statement stand up to its end. -/
  tokens : s.tokens.Sublist (r.rest.take (q.index + 1 - r.index))
  /-- Without it they stand before it. -/
  missing : value = none → r.index < p.index ∧ s.tokens.Sublist (r.rest.take (p.index - r.index))

/-- A statement that begins with other items has its value behind them. -/
theorem ValueOf.of_gathers (hr : r.Standard) (h : r.Gathers items o)
    (hlead : ∀ i, r.index ≤ i → i ≤ o.index → (r.tokenAt i).kind ≠ .semicolon)
    (hexec : (parseExpr .lowest).exec o.advance = (value, q))
    (hitems : s.items = items ++ Expr.items? value) : r.ValueOf s o.advance value q := by
  have hle := h.later.index_le
  have hvalue : o.advance.Gathers (Expr.items? value) q := by
    have hyields := yields_parseExpr .lowest o.advance (h.standard hr).advance
    rwa [Yields, hexec, outcomeItems_items] at hyields
  refine ⟨h.later.trans (later_advance o), fun i hi hip => hlead i hi ?_, hexec, ?_,
    fun hnone => ⟨?_, ?_⟩⟩
  · rw [advance_index] at hip
    exact Nat.le_of_lt_succ hip
  · rw [Statement.tokens, hitems]
    exact (h.next hvalue).sublist_take hr
  · rw [advance_index]
    omega
  · have habsent : (Expr.items? none).filterMap Item.token? = [] := rfl
    rw [Statement.tokens, hitems, hnone, List.filterMap_append, habsent, List.append_nil, advance_index]
    exact h.sublist_take hr

/-- Behind the value of a statement only semicolons are read over. -/
theorem later_of_skipSemicolons {f : Statement}
    (h : (do skipSemicolons; pure f : ParseM Statement).exec q = (some s, o)) : s = f ∧ Later q o := by
  obtain ⟨_, q', hskip, hpure⟩ := exists_of_exec_bind h
  obtain ⟨hs, rfl⟩ := Prod.mk.inj ((exec_pure _ _).symm.trans hpure)
  have hlater := keeps_skipSemicolons stepRelation_later q
  rw [hskip] at hlater
  exact ⟨(Option.some.inj hs).symm, hlater⟩

/-- A token that is required and read is the next one. -/
theorem peek_of_expect {kind : Kind} {t : Token} (h : (expect kind).exec r = (some t, q)) :
    r.peek.kind = kind ∧ t = r.peek ∧ q = r.advance := by
  rw [exec_expect] at h
  split at h
  · next hkind =>
    obtain ⟨ht, rfl⟩ := Prod.mk.inj h
    exact ⟨hkind, (Option.some.inj ht).symm, rfl⟩
  · exact absurd h (by simp)

/-- The value of an expression by itself is this expression. -/
theorem exists_valueOf_expression (hr : r.Standard)
    (h : (expressionStatement parseExpr).exec r = (some s, o)) :
    ∃ p value q, r.ValueOf s p value q ∧ Later q o := by
  rcases hvalue : (parseExpr .lowest).exec r with ⟨value, q⟩
  rw [expressionStatement, exec_bind_some (exec_attempt _ r), hvalue, exec_bind_some (exec_advanceIf _ q),
    ← bind_pure_comp] at h
  obtain ⟨x, q', hget, hpure⟩ := exists_of_exec_bind h
  obtain ⟨hs, rfl⟩ := Prod.mk.inj ((exec_pure _ _).symm.trans hpure)
  obtain rfl := Option.some.inj hs
  cases value with
  | none => exact absurd hget (by simp [Option.getM, exec_failure])
  | some y =>
    obtain ⟨hx, rfl⟩ := Prod.mk.inj ((exec_pure y _).symm.trans hget)
    obtain rfl := Option.some.inj hx
    have hyields := yields_parseExpr .lowest r hr
    rw [Yields, hvalue] at hyields
    refine ⟨r, some y, q, ⟨later_refl r, fun i hi hir => absurd hir (by omega), hvalue,
      hyields.sublist_take hr, fun hnone => absurd hnone (by simp)⟩, ?_⟩
    split
    · exact later_advance q
    · exact later_refl q

/-- What is returned stands behind the keyword. -/
theorem exists_valueOf_returning (hr : r.Standard) (hkind : r.current.kind = .kwReturn)
    (h : (returning parseExpr).exec r = (some s, o)) :
    ∃ p value q, r.ValueOf s p value q ∧ Later q o := by
  rcases hvalue : (parseExpr .lowest).exec r.advance with ⟨value, q⟩
  rw [returning, exec_bind_some (exec_currentToken r), exec_bind_some (exec_advance r),
    exec_bind_some (exec_attempt _ r.advance), hvalue] at h
  obtain ⟨rfl, hlater⟩ := later_of_skipSemicolons h
  refine ⟨r.advance, value, q,
    .of_gathers hr (.take (.returning hkind)) (fun i hi hir => ?_) hvalue rfl, hlater⟩
  obtain rfl : i = r.index := Nat.le_antisymm hir hi
  exact ne_of_eq_of_ne hkind (by decide)

/-- What a name is bound to stands behind the sign. -/
theorem exists_valueOf_binding (hr : r.Standard) (hkind : r.current.kind = .kwLet)
    (h : (binding parseExpr).exec r = (some s, o)) :
    ∃ p value q, r.ValueOf s p value q ∧ Later q o := by
  rw [binding, exec_bind_some (exec_currentToken r)] at h
  obtain ⟨name, q₁, hname, h⟩ := exists_of_exec_bind h
  obtain ⟨hidentifier, rfl, rfl⟩ := peek_of_expect hname
  obtain ⟨sign, q₂, hsign, h⟩ := exists_of_exec_bind h
  obtain ⟨hassign, -, rfl⟩ := peek_of_expect hsign
  rcases hvalue : (parseExpr .lowest).exec r.advance.advance.advance with ⟨value, q⟩
  rw [exec_bind_some (exec_advance _), exec_bind_some (exec_attempt _ _), hvalue] at h
  obtain ⟨rfl, hlater⟩ := later_of_skipSemicolons h
  have hlead : r.Gathers [.binding r.current, .name (.ofToken r.peek)] r.advance.advance :=
    (Gathers.takeNext (.take (.binding hkind)) (.name hidentifier)).skip
  refine ⟨r.advance.advance.advance, value, q,
    .of_gathers hr hlead (fun i hi hir => ?_) hvalue rfl, hlater⟩
  rw [advance_index, advance_index] at hir
  obtain rfl | rfl | rfl : i = r.index ∨ i = r.index + 1 ∨ i = r.index + 2 := by omega
  · exact ne_of_eq_of_ne hkind (by decide)
  · exact ne_of_eq_of_ne hidentifier (by decide)
  · rw [peek, (later_advance r).tokenAt_eq, advance_index] at hassign
    exact ne_of_eq_of_ne hassign (by decide)

/-- **Each statement has its value somewhere.** -/
theorem exists_valueOf (hr : r.Standard) (h : parseStatement.exec r = (some s, o)) :
    ∃ p value q, r.ValueOf s p value q ∧ Later q o := by
  rw [parseStatement, statement, exec_bind_some (exec_get r), hr.statementRule?_eq] at h
  cases hrule : Grammar.standardStatementRule? r.current.kind with
  | none =>
    rw [hrule] at h
    exact exists_valueOf_expression hr h
  | some rule =>
    rw [hrule, Option.getD_some] at h
    obtain ⟨rfl, hkind⟩ | ⟨rfl, hkind⟩ := Grammar.kind_of_standardStatementRule? hrule
    · exact exists_valueOf_binding hr hkind h
    · exact exists_valueOf_returning hr hkind h

end Parser

end MonkeySyntax
