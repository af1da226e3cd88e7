import MonkeySyntax.Proofs.Parsing.Candid

/-! # Clean runs

An action runs cleanly when it gives a value and reports nothing. Since nothing reported is ever
taken back, a sequence of actions runs cleanly exactly when each of its parts does.

* **`ParseM.Reads m p a q`** — from `p` the action `m` gives `a` without a report and leaves `q`.
* `reads_bind`, `reads_attempt_bind`, `reads_expect_bind`, `reads_nested` — what a clean run is made
  of. In particular a clean run has never seen a failure where one is taken for an answer.
* `reads_collectWhile_true`, `Reads.collectWhile_induction` — one round of a loop, and all of them.
  The bound that closes the recursion is never reached, because every round reads a token. -/

namespace MonkeySyntax

open Parsing

namespace ParseM

variable {α β : Type} {p q r : Parser}

/-- **A clean run**: the action gives a value and reports nothing. -/
def Reads (m : ParseM α) (p : Parser) (a : α) (q : Parser) : Prop :=
  m.exec p = (some a, q) ∧ q.diagnostics.size = p.diagnostics.size

theorem Reads.later {m : ParseM α} {a : α} (hm : Keeps Parser.Later m) (h : Reads m p a q) :
    Parser.Later p q := by
  have hlater := hm p
  rwa [h.1] at hlater

/-- A sequence runs cleanly when both parts do; it is enough to know this of the parser at hand. -/
theorem reads_bind_of {m : ParseM α} {f : α → ParseM β} {b : β}
    (hm : Parser.Later p (m.exec p).2) (hf : ∀ a, Keeps Parser.Later (f a)) :
    Reads (m >>= f) p b r ↔ ∃ a q, Reads m p a q ∧ Reads (f a) q b r := by
  constructor
  · rintro ⟨hrun, hsize⟩
    rcases hm' : m.exec p with ⟨_ | a, q⟩
    · rw [exec_bind_none hm'] at hrun
      exact absurd hrun (by simp)
    · rw [exec_bind_some hm'] at hrun
      -- neither part takes a diagnostic back, so neither has added one
      have hpq : p.diagnostics.size ≤ q.diagnostics.size := by
        have h := hm.size_le
        rwa [hm'] at h
      have hqr : q.diagnostics.size ≤ r.diagnostics.size := by
        have h := (hf a q).size_le
        rwa [hrun] at h
      exact ⟨a, q, ⟨hm', by omega⟩, hrun, by omega⟩
  · rintro ⟨a, q, ⟨hrun, hsize⟩, hrun', hsize'⟩
    exact ⟨by rw [exec_bind_some hrun, hrun'], hsize'.trans hsize⟩

/-- A sequence runs cleanly exactly when both parts do. -/
theorem reads_bind {m : ParseM α} {f : α → ParseM β} {b : β} (hm : Keeps Parser.Later m)
    (hf : ∀ a, Keeps Parser.Later (f a)) :
    Reads (m >>= f) p b r ↔ ∃ a q, Reads m p a q ∧ Reads (f a) q b r :=
  reads_bind_of (hm p) hf

theorem reads_pure {a b : α} : Reads (pure a) p b q ↔ b = a ∧ q = p := by
  constructor
  · rintro ⟨hrun, -⟩
    have heq : a = b ∧ p = q := by simpa using hrun
    exact ⟨heq.1.symm, heq.2.symm⟩
  · rintro ⟨rfl, rfl⟩
    exact ⟨rfl, rfl⟩

/-- An action runs cleanly when its value is only put into another one. -/
theorem reads_bind_pure {m : ParseM α} {f : α → β} {b : β} (hm : Keeps Parser.Later m) :
    Reads (do let a ← m; pure (f a)) p b q ↔ ∃ a, Reads m p a q ∧ b = f a := by
  rw [reads_bind hm fun a => keeps_pure Parser.stepRelation_later (f a)]
  constructor
  · rintro ⟨a, r, ha, hpure⟩
    obtain ⟨rfl, rfl⟩ := reads_pure.1 hpure
    exact ⟨a, ha, rfl⟩
  · rintro ⟨a, ha, rfl⟩
    exact ⟨a, q, ha, reads_pure.2 ⟨rfl, rfl⟩⟩

theorem reads_get_bind {f : Parser → ParseM β} {b : β} :
    Reads (get >>= f) p b r ↔ Reads (f p) p b r := by
  rw [Reads, Reads, exec_bind_some (exec_get p)]

theorem reads_currentToken_bind {f : Token → ParseM β} {b : β} :
    Reads (currentToken >>= f) p b r ↔ Reads (f p.current) p b r := by
  rw [Reads, Reads, exec_bind_some (exec_currentToken p)]

theorem reads_advance_bind {f : Unit → ParseM β} {b : β} :
    Reads (advance >>= f) p b r ↔ Reads (f ()) p.advance b r := by
  rw [Reads, Reads, exec_bind_some (exec_advance p), Parser.advance_diagnostics]

theorem reads_advanceIf_bind {condition : Parser → Bool} {f : Unit → ParseM β} {b : β} :
    Reads (advanceIf condition >>= f) p b r ↔
      Reads (f ()) (if condition p then p.advance else p) b r := by
  rw [Reads, Reads, exec_bind_some (exec_advanceIf condition p)]
  split
  · rw [Parser.advance_diagnostics]
  · rfl

/-- What reports something does not run cleanly. -/
theorem not_reads_of_none {m : ParseM α} {a : α} (h : (m.exec p).1 = none) : ¬ Reads m p a q := by
  rintro ⟨hrun, -⟩
  rw [hrun] at h
  exact absurd h (by simp)

theorem reads_expect {kind : Kind} {t : Token} :
    Reads (expect kind) p t q ↔ p.peek.kind = kind ∧ t = p.peek ∧ q = p.advance := by
  rw [Reads, exec_expect]
  split
  · next h =>
    constructor
    · rintro ⟨hrun, -⟩
      have heq : p.peek = t ∧ p.advance = q := by simpa using hrun
      exact ⟨h, heq.1.symm, heq.2.symm⟩
    · rintro ⟨-, rfl, rfl⟩
      exact ⟨rfl, by rw [Parser.advance_diagnostics]⟩
  · next h =>
    constructor
    · rintro ⟨hrun, -⟩
      exact absurd hrun (by simp)
    · rintro ⟨h', -⟩
      exact absurd h' h

theorem reads_expect_bind {kind : Kind} {f : Token → ParseM β} {b : β}
    (hf : ∀ t, Keeps Parser.Later (f t)) :
    Reads (expect kind >>= f) p b r ↔ p.peek.kind = kind ∧ Reads (f p.peek) p.advance b r := by
  rw [reads_bind (candid_expect kind).keeps hf]
  constructor
  · rintro ⟨t, q, ht, hrest⟩
    obtain ⟨hkind, rfl, rfl⟩ := reads_expect.1 ht
    exact ⟨hkind, hrest⟩
  · rintro ⟨hkind, hrest⟩
    exact ⟨p.peek, p.advance, reads_expect.2 ⟨hkind, rfl, rfl⟩, hrest⟩

theorem reads_getM {o : Option α} {a : α} :
    Reads (o.getM : ParseM α) p a q ↔ o = some a ∧ q = p := by
  cases o with
  | none => exact ⟨fun h => absurd h.1 (by simp [Option.getM]), fun h => absurd h.1 (by simp)⟩
  | some b =>
    rw [show ((some b).getM : ParseM α) = pure b from rfl, reads_pure, Option.some.injEq, eq_comm]

/-- In a clean run an attempt has succeeded. -/
theorem reads_attempt {m : ParseM α} {o : Option α} (hm : Candid Given m) :
    Reads (attempt m) p o q ↔ ∃ a, o = some a ∧ Reads m p a q := by
  constructor
  · rintro ⟨hrun, hsize⟩
    rw [exec_attempt, Prod.mk.injEq, Option.some.injEq] at hrun
    obtain ⟨rfl, rfl⟩ := hrun
    rcases hm.reports p with h | ⟨a, ha, -⟩
    · omega
    · exact ⟨a, ha, Prod.ext ha rfl, hsize⟩
  · rintro ⟨a, rfl, hrun, hsize⟩
    exact ⟨by rw [exec_attempt, hrun], hsize⟩

theorem reads_attempt_bind {m : ParseM α} {f : Option α → ParseM β} {b : β} (hm : Candid Given m)
    (hf : ∀ o, Keeps Parser.Later (f o)) :
    Reads (attempt m >>= f) p b r ↔ ∃ a q, Reads m p a q ∧ Reads (f (some a)) q b r := by
  rw [reads_bind hm.keeps.attempt hf]
  constructor
  · rintro ⟨o, q, ho, hrest⟩
    obtain ⟨a, rfl, ha⟩ := (reads_attempt hm).1 ho
    exact ⟨a, q, ha, hrest⟩
  · rintro ⟨a, q, ha, hrest⟩
    exact ⟨some a, q, (reads_attempt hm).2 ⟨a, rfl, ha⟩, hrest⟩

/-- An attempt whose value is only put into another one. -/
theorem reads_attempt_bind_pure {m : ParseM α} {f : Option α → β} {b : β} (hm : Candid Given m) :
    Reads (do let o ← attempt m; pure (f o)) p b q ↔ ∃ a, Reads m p a q ∧ b = f (some a) := by
  rw [reads_bind_pure hm.keeps.attempt]
  constructor
  · rintro ⟨o, ho, rfl⟩
    obtain ⟨a, rfl, ha⟩ := (reads_attempt hm).1 ho
    exact ⟨a, ha, rfl⟩
  · rintro ⟨a, ha, rfl⟩
    exact ⟨some a, (reads_attempt hm).2 ⟨a, rfl, ha⟩, rfl⟩

theorem reads_map {m : ParseM α} {f : α → β} {b : β} (hm : Keeps Parser.Later m) :
    Reads (f <$> m) p b q ↔ ∃ a, b = f a ∧ Reads m p a q := by
  rw [← bind_pure_comp, reads_bind_pure hm]
  exact exists_congr fun a => and_comm

/-- An action runs cleanly inside one more expression when that one may be opened. -/
theorem reads_nested {m : ParseM α} {a : α} :
    Reads (nested m) p a q ↔ p.depth < p.grammar.depthLimit ∧
      ∃ r, Reads m (p.withDepth (p.depth + 1)) a r ∧ q = r.withDepth (r.depth - 1) := by
  rw [Reads, exec_nested]
  split
  · next h =>
    constructor
    · rintro ⟨hrun, hsize⟩
      obtain ⟨ha, hq⟩ := Prod.mk.inj hrun
      refine ⟨h, _, ⟨Prod.ext ha rfl, ?_⟩, hq.symm⟩
      rw [← hq] at hsize
      exact hsize
    · rintro ⟨-, r, ⟨hrun, hsize⟩, rfl⟩
      rw [show ({ p with depth := p.depth + 1 } : Parser) = p.withDepth (p.depth + 1) from rfl, hrun]
      exact ⟨rfl, hsize⟩
  · next h =>
    constructor
    · rintro ⟨hrun, -⟩
      exact absurd hrun (by simp)
    · rintro ⟨h', -⟩
      exact absurd h' h

/-! ### Loops without a bound -/

/-- **Each round of a loop reads a token**: where the condition holds and the item gives a value,
fewer tokens are left behind it. -/
def Consuming (condition : Parser → Bool) (item : ParseM α) : Prop :=
  ∀ p : Parser, p.Standard → condition p = true → ∀ a q, item.exec p = (some a, q) →
    q.remaining < p.remaining

/-- Any two bounds that are not below the number of tokens left give the same list. -/
theorem exec_collectWithin_eq {condition : Parser → Bool} {item : ParseM α}
    (hitem : Keeps Parser.Later item) (hread : Consuming condition item) (m n : Nat)
    (hp : p.Standard) (hm : p.remaining ≤ m) (hn : p.remaining ≤ n) :
    (collectWithin condition item m).exec p = (collectWithin condition item n).exec p := by
  induction m generalizing n p with
  | zero => exact absurd hm (by simp [Parser.remaining])
  | succ m ih =>
    cases n with
    | zero => exact absurd hn (by simp [Parser.remaining])
    | succ n =>
      cases hc : condition p with
      | false => rw [exec_collectWithin_false hc, exec_collectWithin_false hc]
      | true =>
        rw [exec_collectWithin_true hc, exec_collectWithin_true hc]
        rcases hrun : item.exec p with ⟨_ | a, q⟩
        · rw [exec_bind_none hrun, exec_bind_none hrun]
        · have hq : Parser.Later p q := by simpa [hrun] using hitem p
          -- the round has read a token, so both bounds less one suffice behind it
          have hless := hread p hp hc a q hrun
          have hrest := ih n (hp.later hq) (by omega) (by omega)
          rw [exec_bind_some hrun, exec_bind_some hrun, exec_bind, exec_bind, hrest]

/-- **One round of a loop**: the item and then the loop again, as long as the condition holds. -/
theorem exec_collectWhile {condition : Parser → Bool} {item : ParseM α}
    (hitem : Keeps Parser.Later item) (hread : Consuming condition item) (hp : p.Standard)
    (h : condition p = true) :
    (collectWhile condition item).exec p =
      (do let a ← item; let rest ← collectWhile condition item; pure (a :: rest)).exec p := by
  have hstart : (collectWhile condition item).exec p =
      (collectWithin condition item (p.tokens.size - p.index + 1)).exec p :=
    exec_bind_some (exec_get p) _
  rw [hstart, exec_collectWithin_true h]
  rcases hrun : item.exec p with ⟨_ | a, q⟩
  · rw [exec_bind_none hrun, exec_bind_none hrun]
  · have hq : Parser.Later p q := by simpa [hrun] using hitem p
    have hless : q.remaining < p.tokens.size - p.index + 1 := hread p hp h a q hrun
    have hagain : (collectWhile condition item).exec q =
        (collectWithin condition item q.remaining).exec q := exec_bind_some (exec_get q) _
    have hrest := exec_collectWithin_eq hitem hread (p.tokens.size - p.index) q.remaining
      (hp.later hq) (by omega) le_rfl
    rw [exec_bind_some hrun, exec_bind_some hrun, exec_bind, exec_bind, hagain, hrest]

/-- Where the condition does not hold the loop is over. -/
theorem exec_collectWhile_false {condition : Parser → Bool} (item : ParseM α)
    (h : condition p = false) : (collectWhile condition item).exec p = (some [], p) :=
  (exec_bind_some (exec_get p) _).trans (exec_collectWithin_false h item _)

theorem reads_collectWhile_false {condition : Parser → Bool} {item : ParseM α} {as : List α}
    (h : condition p = false) : Reads (collectWhile condition item) p as q ↔ as = [] ∧ q = p := by
  rw [← reads_pure, Reads, Reads, exec_collectWhile_false item h, exec_pure]

/-- A loop runs cleanly when its first round and the others do. -/
theorem reads_collectWhile_true {condition : Parser → Bool} {item : ParseM α} {as : List α}
    (hitem : Keeps Parser.Later item) (hread : Consuming condition item) (hp : p.Standard)
    (h : condition p = true) :
    Reads (collectWhile condition item) p as q ↔
      ∃ a r rest, as = a :: rest ∧ Reads item p a r ∧
        Reads (collectWhile condition item) r rest q := by
  have hloop : Keeps Parser.Later (collectWhile condition item) :=
    hitem.collectWhile Parser.stepRelation_later
  have hpure (a : α) : Keeps Parser.Later
      (collectWhile condition item >>= fun rest => pure (a :: rest)) :=
    hloop.bind Parser.stepRelation_later fun rest => keeps_pure Parser.stepRelation_later _
  rw [Reads, exec_collectWhile hitem hread hp h, ← Reads, reads_bind hitem hpure]
  constructor
  · rintro ⟨a, r, ha, hrest⟩
    obtain ⟨rest, s, hrest, hs⟩ :=
      (reads_bind hloop fun _ => keeps_pure Parser.stepRelation_later _).1 hrest
    obtain ⟨rfl, rfl⟩ := reads_pure.1 hs
    exact ⟨a, r, rest, rfl, ha, hrest⟩
  · rintro ⟨a, r, rest, rfl, ha, hrest⟩
    exact ⟨a, r, ha, (reads_bind hloop fun _ => keeps_pure Parser.stepRelation_later _).2
      ⟨rest, q, hrest, reads_pure.2 ⟨rfl, rfl⟩⟩⟩

/-- **Induction over the rounds** of a loop that has run cleanly. -/
theorem Reads.collectWhile_induction {condition : Parser → Bool} {item : ParseM α}
    (hitem : Keeps Parser.Later item) (hread : Consuming condition item)
    {motive : Parser → List α → Parser → Prop} (done : ∀ p, condition p = false → motive p [] p)
    (round : ∀ p a r as q, p.Standard → condition p = true → Reads item p a r → motive r as q →
      motive p (a :: as) q)
    {as : List α} (hp : p.Standard) (h : Reads (collectWhile condition item) p as q) :
    motive p as q := by
  induction hn : p.remaining using Nat.strong_induction_on generalizing p as with
  | _ n ih =>
    cases hc : condition p with
    | false =>
      obtain ⟨rfl, rfl⟩ := (reads_collectWhile_false hc).1 h
      exact done q hc
    | true =>
      obtain ⟨a, r, rest, rfl, ha, hrest⟩ := (reads_collectWhile_true hitem hread hp hc).1 h
      exact round p a r rest q hp hc ha
        (ih r.remaining (hn ▸ hread p hp hc a r ha.1) (hp.later (ha.later hitem)) hrest rfl)

end ParseM

end MonkeySyntax
