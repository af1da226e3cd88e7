import MonkeySyntax.Proofs.Grammar.Derivation
import MonkeySyntax.Proofs.Parsing.Later
import MonkeySyntax.Proofs.Tree.Items

/-! # What a run gathers

Whether or not anything goes wrong, a parser does four things on its way: it takes the current token
for an item of a tree, reports the current token or the one after it, and moves on by one token. A
token is taken or reported at most once while it is the current one, which is what keeps the items
and the diagnostics in the order of the source.

* `Item.Of t item` — the item may be made of the token `t`.
* `Parser.Faults p cause` — the cause may be reported at the current token.
* **`Parser.Gathers p items q`** — on the way from `p` to `q`, whose current token has been dealt with,
  the items are gathered. Every report leaves a licence for one missing child.
* **`ParseM.Yields o items m p`** — whatever comes of the action `m` at `p`, the items of its value have
  been gathered since `o`; a failure counts as a missing child.
* `Yields.bind`, `yields_expect_bind`, `yields_collectWhile`, … — how actions are put together. -/

namespace MonkeySyntax

open Parsing

/-- **What a token may be taken for.** -/
inductive Item.Of (t : Token) : Item → Prop where
  /-- A word is a name. -/
  | name (h : t.kind = .identifier) : Of t (.name (.ofToken t))
  /-- A run of digits is its value. -/
  | number {value} (h : t.kind = .integer) (hvalue : integerValue? t.text = some value) :
      Of t (.number t value)
  /-- A keyword is a truth value. -/
  | truth (h : t.kind = .kwTrue ∨ t.kind = .kwFalse) : Of t (.truth t (t.kind == .kwTrue))
  /-- A sign is an operator before its operand. -/
  | prefixSign (h : t.kind = .bang ∨ t.kind = .minus) : Of t (.prefixSign t t.text)
  /-- A sign is an operator between its operands. -/
  | infixSign {power} (h : t.kind.binaryPower? = some power) : Of t (.infixSign t t.text)
  /-- The keyword `if`. -/
  | choice (h : t.kind = .kwIf) : Of t (.choice t)
  /-- The keyword `fn`. -/
  | function (h : t.kind = .kwFn) : Of t (.function t)
  /-- The opening parenthesis. -/
  | call (h : t.kind = .openParen) : Of t (.call t)
  /-- The opening brace. -/
  | brace (h : t.kind = .openBrace) : Of t (.brace t)
  /-- The keyword `let`. -/
  | binding (h : t.kind = .kwLet) : Of t (.binding t)
  /-- The keyword `return`. -/
  | returning (h : t.kind = .kwReturn) : Of t (.returning t)

namespace Item

variable {t : Token} {item : Item}

/-- An item keeps the token that it is made of. -/
theorem Of.token?_eq (h : item.Of t) : item.token? = some t := by
  cases h <;> rfl

/-- Nothing is made of the end of the source. -/
theorem Of.kind_ne_eof (h : item.Of t) : t.kind ≠ .eof := by
  intro ht
  cases h with
  | truth h => simp [ht] at h
  | prefixSign h => simp [ht] at h
  | infixSign h => simp [ht, Kind.binaryPower?] at h
  | _ => simp_all

/-- A child that is missing is made of no token. -/
theorem Of.ne_absent (h : item.Of t) : item ≠ .absent := by
  rintro rfl
  cases h

end Item

namespace Parser

/-- **What may be reported at the current token.** -/
inductive Faults (p : Parser) : Cause → Prop where
  /-- It starts no expression. -/
  | noExpression (h : p.grammar.prefixRule? p.current.kind = none) :
      Faults p (.noExpression p.current.kind)
  /-- It is read as a number and has no value. -/
  | invalidInteger (h : p.grammar.prefixRule? p.current.kind = some .integer)
      (hvalue : integerValue? p.current.text = none) : Faults p (.invalidInteger p.current.text)
  /-- No further expression may be opened there. -/
  | tooDeep : Faults p (.nestingTooDeep p.grammar.depthLimit)
  /-- The source ends inside a block. -/
  | unclosed (h : p.current.kind = .eof) : Faults p (p.unexpected .closeBrace p.current)

/-- **The items that are gathered on the way from one parser to another.** The way begins at the current
token of the first parser and has dealt with the current token of the second one. -/
inductive Gathers : Parser → List Item → Parser → Prop where
  /-- The current token is passed over. -/
  | stay (p) : Gathers p [] p
  /-- The current token is taken for an item. -/
  | take {p item} (h : item.Of p.current) : Gathers p [item] p
  /-- The current token is reported. -/
  | fault {p cause} (h : p.Faults cause) : Gathers p [.absent] (p.report cause p.current)
  /-- The token after the current one is reported. -/
  | missing {p q items kind} (h : Gathers p items q) (hkind : q.peek.kind ≠ kind) :
      Gathers p (items ++ [.absent]) (q.report (q.unexpected kind q.peek) q.peek)
  /-- The way goes on at the next token. -/
  | next {p q r items others} (h : Gathers p items q) (hnext : Gathers q.advance others r) :
      Gathers p (items ++ others) r
  /-- Some of the items are not used. -/
  | drop {p q items kept} (h : Gathers p items q) (hkept : kept.Sublist items) : Gathers p kept q
  /-- The trace starts anew. -/
  | clear {p q items} (h : Gathers p items q) : Gathers p items q.clearTrace
  /-- The way lies inside one more expression. -/
  | nested {p q items} (hlimit : p.depth < p.grammar.depthLimit)
      (h : Gathers (p.withDepth (p.depth + 1)) items q) : Gathers p items (q.withDepth (q.depth - 1))

variable {o p q : Parser} {items : List Item}

/-- The way leads to a later parser. -/
theorem Gathers.later (h : Gathers p items q) : Later p q := by
  induction h with
  | stay p => exact later_refl p
  | take => exact later_refl _
  | fault => exact later_report le_rfl (Nat.le_succ _) _
  | missing _ _ ih => exact ih.trans (later_report (Nat.le_succ _) le_rfl _)
  | next _ _ ih ih' => exact ih.trans ((later_advance _).trans ih')
  | drop _ _ ih => exact ih
  | clear _ ih => exact ih.trans (later_clearTrace _)
  | nested hlimit _ ih => exact stepRelation_later.nested _ _ hlimit ih

theorem Gathers.standard (h : Gathers p items q) (hp : p.Standard) : q.Standard :=
  hp.later h.later

/-- **Every item is made of a token** that the parser sees, unless a child is missing there. -/
theorem Gathers.of_mem (h : Gathers p items q) :
    ∀ item ∈ items, item = .absent ∨ ∃ i, item.Of (p.tokenAt i) := by
  induction h with
  | stay => simp
  | @take p _ hitem =>
    intro item hmem
    rw [List.mem_singleton.1 hmem]
    exact .inr ⟨p.index, hitem⟩
  | fault => exact fun item hmem => .inl (List.mem_singleton.1 hmem)
  | missing _ _ ih =>
    exact List.forall_mem_append.2 ⟨ih, fun item hmem => .inl (List.mem_singleton.1 hmem)⟩
  | next hway _ ih ih' =>
    have hlater := hway.later.trans (later_advance _)
    refine List.forall_mem_append.2 ⟨ih, fun item hmem => ?_⟩
    rcases ih' item hmem with habsent | ⟨i, hitem⟩
    · exact .inl habsent
    · rw [hlater.tokenAt_eq] at hitem
      exact .inr ⟨i, hitem⟩
  | drop _ hkept ih => exact fun item hmem => ih item (hkept.subset hmem)
  | clear _ ih => exact ih
  | nested _ _ ih => exact ih

/-- The next token is passed over as well. -/
theorem Gathers.skip (h : Gathers p items q) : Gathers p items q.advance := by
  have hnext := h.next (.stay q.advance)
  rwa [List.append_nil] at hnext

/-- The next token is taken for an item. -/
theorem Gathers.takeNext {item : Item} (h : Gathers p items q) (hitem : item.Of q.peek) :
    Gathers p (items ++ [item]) q.advance :=
  h.next (.take (by rwa [current_advance]))

/-- Of what was gathered only a missing child is left. -/
theorem Gathers.lose (h : Gathers p items q) (habsent : Item.absent ∈ items) :
    Gathers p [.absent] q :=
  h.drop (List.singleton_sublist.2 habsent)

end Parser

namespace ParseM

variable {α β : Type} {o p : Parser} {xs : List Item} {v : α → List Item} {w : β → List Item}

/-- The items of an outcome; a failure is a missing child. -/
def outcomeItems (v : α → List Item) : Option α → List Item
  | none => [.absent]
  | some a => v a

theorem outcomeItems_items : outcomeItems Expr.items = Expr.items? := by
  funext x
  cases x <;> rfl

/-- **The action yields its items**: whatever comes of it at `p`, the items of its value have been
gathered since `o`. -/
def Yields (o : Parser) (v : α → List Item) (m : ParseM α) (p : Parser) : Prop :=
  o.Gathers (outcomeItems v (m.exec p).1) (m.exec p).2

/-- A sequence yields what its second part does behind the value of the first one. -/
theorem Yields.bind {m : ParseM α} {f : α → ParseM β} (hm : Yields o v m p)
    (hf : ∀ a q, o.Gathers (v a) q → Yields o w (f a) q) : Yields o w (m >>= f) p := by
  unfold Yields at hm ⊢
  rcases hrun : m.exec p with ⟨_ | a, q⟩
  · rw [exec_bind_none hrun]
    rwa [hrun] at hm
  · rw [exec_bind_some hrun]
    rw [hrun] at hm
    exact hf a q hm

theorem yields_pure {a : α} (h : o.Gathers (v a) p) : Yields o v (pure a) p :=
  h

theorem yields_get_bind {f : Parser → ParseM β} (h : Yields o w (f p) p) :
    Yields o w (get >>= f) p := by
  unfold Yields
  rw [exec_bind_some (exec_get p)]
  exact h

theorem yields_currentToken_bind {f : Token → ParseM β} (h : Yields o w (f p.current) p) :
    Yields o w (currentToken >>= f) p := by
  unfold Yields
  rw [exec_bind_some (exec_currentToken p)]
  exact h

theorem yields_advance_bind {f : Unit → ParseM β} (h : Yields o w (f ()) p.advance) :
    Yields o w (advance >>= f) p := by
  unfold Yields
  rw [exec_bind_some (exec_advance p)]
  exact h

theorem Yields.map {m : ParseM α} {f : α → β} (hm : Yields o v m p) (hf : ∀ a, w (f a) = v a) :
    Yields o w (f <$> m) p := by
  rw [← bind_pure_comp]
  apply hm.bind
  intro a q ha
  exact yields_pure (by rwa [hf])

/-- A required token is read, or the one that stands there is reported. -/
theorem yields_expect_bind {kind : Kind} {f : Token → ParseM β} (h : o.Gathers xs p)
    (hf : p.peek.kind = kind → Yields o w (f p.peek) p.advance) :
    Yields o w (expect kind >>= f) p := by
  unfold Yields
  by_cases hkind : p.peek.kind = kind
  · have hrun : (expect kind).exec p = (some p.peek, p.advance) := by rw [exec_expect, if_pos hkind]
    rw [exec_bind_some hrun]
    exact hf hkind
  · have hrun : (expect kind).exec p = (none, p.report (p.unexpected kind p.peek) p.peek) := by
      rw [exec_expect, if_neg hkind]
    rw [exec_bind_none hrun]
    exact (h.missing hkind).lose (by simp)

/-- The current token is reported. -/
theorem yields_reject {cause : Cause} (h : p.Faults cause) (v : α → List Item) :
    Yields p v (reject cause p.current) p :=
  .fault h

/-- A value that could be missing is taken out; where it is, that has been reported before. -/
theorem yields_getM {r : Option α} (h : o.Gathers (outcomeItems v r) p) : Yields o v r.getM p := by
  cases r with
  | none => exact h
  | some a => exact h

/-- **What is yielded behind a way** comes behind the items of that way. -/
theorem Yields.behind {m : ParseM α} (hm : Yields p.advance v m p.advance) (h : o.Gathers xs p) :
    Yields o (xs ++ v ·) m p.advance := by
  unfold Yields at hm ⊢
  cases hvalue : (m.exec p.advance).1 with
  | none =>
    rw [hvalue] at hm
    exact (h.next hm).lose (by simp [outcomeItems])
  | some a =>
    rw [hvalue] at hm
    exact h.next hm

/-- Where the failure of an expression is taken for an answer, a child is missing. -/
theorem Yields.attempt {m : ParseM Expr} (hm : Yields p.advance Expr.items m p.advance)
    (h : o.Gathers xs p) : Yields o (xs ++ Expr.items? ·) (attempt m) p.advance := by
  have hchild : o.Gathers (xs ++ outcomeItems Expr.items (m.exec p.advance).1) (m.exec p.advance).2 :=
    h.next hm
  rwa [outcomeItems_items] at hchild

/-- What is yielded inside one more open expression. -/
theorem Yields.nested {m : ParseM α} (hm : ∀ q : Parser, q.Standard → Yields q v m q)
    (hp : p.Standard) : Yields p v (nested m) p := by
  unfold Yields
  rw [exec_nested]
  by_cases hlimit : p.depth < p.grammar.depthLimit
  · rw [if_pos hlimit]
    exact .nested hlimit (hm (p.withDepth (p.depth + 1)) (hp.withDepth _))
  · rw [if_neg hlimit]
    exact .fault .tooDeep

/-! ### Loops -/

/-- A loop yields the items of its rounds, each behind those before it. -/
theorem yields_collectWhile {condition : Parser → Bool} {item : ParseM α} (h : o.Gathers xs p)
    (hitem : ∀ ys q, o.Gathers ys q → condition q = true → Yields o (ys ++ v ·) item q) :
    Yields o (xs ++ ·.flatMap v) (collectWhile condition item) p := by
  -- the bound on the rounds plays no part, since any number of them will do
  have hwithin (n : Nat) (ys : List Item) (q : Parser) (hq : o.Gathers ys q) :
      Yields o (ys ++ ·.flatMap v) (collectWithin condition item n) q := by
    induction n generalizing ys q with
    | zero => exact yields_pure (by simpa using hq)
    | succ n ih =>
      apply yields_get_bind
      split
      · next hcondition =>
        apply (hitem ys q hq hcondition).bind
        intro a r ha
        apply (ih (ys ++ v a) r ha).bind
        intro rest s hrest
        apply yields_pure
        rwa [List.flatMap_cons, ← List.append_assoc]
      · exact yields_pure (by simpa using hq)
  apply yields_get_bind
  exact hwithin p.remaining xs p h

/-- Semicolons are passed over. -/
theorem yields_skipSemicolons (h : o.Gathers xs p) : Yields o (fun _ => xs) skipSemicolons p := by
  have hround (ys : List Item) (q : Parser) (hq : o.Gathers ys q)
      (_ : peekIs .semicolon q = true) : Yields o (fun _ => ys ++ []) advance q := by
    rw [List.append_nil]
    exact hq.skip
  apply (yields_collectWhile (v := fun _ => []) h hround).bind
  intro units q hq
  have hnone : units.flatMap (fun _ => ([] : List Item)) = [] := by
    rw [List.flatMap_eq_nil_iff]
    exact fun _ _ => rfl
  rw [hnone, List.append_nil] at hq
  exact yields_pure hq

/-- **Each round of a loop over statements** reads something and moves on behind it. -/
def Sweeps (v : α → List Item) (item : ParseM α) : Prop :=
  ∀ p : Parser, p.Standard →
    (∀ a r, item.exec p = (some a, r) → ∃ q, p.Gathers (v a) q ∧ r = q.advance) ∧
      ∀ r, item.exec p = (none, r) → p.Gathers [.absent] r

/-- A loop over statements yields the items of its rounds. -/
theorem Sweeps.collectWhile {condition : Parser → Bool} {item : ParseM α} (hitem : Sweeps v item)
    (hp : p.Standard) : Yields p (·.flatMap v) (collectWhile condition item) p := by
  have hwithin (n : Nat) (q : Parser) (hq : q.Standard) :
      Yields q (·.flatMap v) (collectWithin condition item n) q := by
    induction n generalizing q with
    | zero => exact .stay q
    | succ n ih =>
      apply yields_get_bind
      split
      · obtain ⟨hsome, hnone⟩ := hitem q hq
        rcases hrun : item.exec q with ⟨_ | a, r⟩
        · unfold Yields
          rw [exec_bind_none hrun]
          exact hnone r hrun
        · -- behind the round the loop starts afresh at the next token
          obtain ⟨s, hs, rfl⟩ := hsome a r hrun
          have hrest := (ih s.advance (hs.standard hq).advance).behind hs
          unfold Yields
          rw [exec_bind_some hrun]
          apply hrest.bind
          intro rest t ht
          apply yields_pure
          rwa [List.flatMap_cons]
      · exact .stay q
  apply yields_get_bind
  exact hwithin p.remaining p hp

end ParseM

end MonkeySyntax
