import MonkeySyntax.Proofs.Grammar.Ready

/-! # What the grammar derives is read

Where a derived phrase lies ahead of the parser, its rule runs cleanly exactly when the levels that
are left suffice for the phrase; it then gives the derived tree and stops at the last token.

* **`Phrase.Read phrase ts n`** — the statement above for one phrase; a place in the grammar asks for
  its own rule and for what may follow there.
* **`Derives.read`** — every derivation is read so, by induction with one lemma for each rule of the
  grammar. -/

namespace MonkeySyntax

open Parsing ParseM

/-- **How a phrase is read** where it lies ahead: by the rule of its place, cleanly exactly when the
levels suffice, with the derived tree, up to its last token. -/
def Phrase.Read : Phrase → List Token → Nat → Prop
  | .expr bp e, ts, n =>
    ∀ {expr l p t us x q}, Ready expr l p (ts ++ t :: us) → t.kind.Follows bp →
      (Reads (expr bp) p x q ↔ n ≤ l ∧ x = e ∧ q = p.skip (ts.length - 1))
  | .part e s, ts, n =>
    ∀ {expr l p t us bp x q}, Ready expr l p (ts ++ t :: us) → t.kind.Follows s → bp.Admits s →
      (Reads (climb expr bp) p x q ↔
        n ≤ l ∧ Reads (continueExpr expr bp e) (p.skip (ts.length - 1)) x q)
  | .arguments xs, ts, n =>
    ∀ {expr l p o c us ys q}, Ready expr l p (o :: (ts ++ c :: us)) → c.kind = .closeParen →
      (Reads (Parsing.arguments expr) p ys q ↔ n ≤ l ∧ ys = xs ∧ q = p.skip (ts.length + 1))
  | .furtherArguments xs, ts, n =>
    ∀ {expr l p o c us ys q}, Ready expr l p (o :: (ts ++ c :: us)) → c.kind = .closeParen →
      (Reads (collectWhile (peekIs .comma) (do advance; argument expr)) p ys q ↔
        n ≤ l ∧ ys = xs.map some ∧ q = p.skip ts.length)
  | .parameters is, ts, _ =>
    ∀ {expr l p o c us js q}, Ready expr l p (o :: (ts ++ c :: us)) → c.kind = .closeParen →
      (Reads Parsing.parameters p js q ↔ js = is ∧ q = p.skip (ts.length + 1))
  | .furtherParameters is, ts, _ =>
    ∀ {expr l p o c us js q}, Ready expr l p (o :: (ts ++ c :: us)) → c.kind = .closeParen →
      (Reads (collectWhile (peekIs .comma) (do advance; parameter)) p js q ↔
        js = is ∧ q = p.skip ts.length)
  | .block b, ts, n =>
    ∀ {expr l p us c q}, Ready expr l p (ts ++ us) →
      (Reads (Parsing.block expr) p c q ↔ n ≤ l ∧ c = b ∧ q = p.skip (ts.length - 1))
  | .alternative b, ts, n =>
    ∀ {expr l p u t us c q}, Ready expr l p (u :: (ts ++ t :: us)) → t.kind ≠ .kwElse →
      (Reads (otherwise expr) p c q ↔ n ≤ l ∧ c = b ∧ q = p.skip ts.length)
  | .statement s, ts, n =>
    ∀ {expr l p t us r q}, Ready expr l p (ts ++ t :: us) → t.kind ≠ .semicolon →
      (ts.getLast?.map Token.kind = some .semicolon ∨ t.kind.Follows .lowest) →
      (Reads (Parsing.statement expr) p r q ↔ n ≤ l ∧ r = s ∧ q = p.skip (ts.length - 1))
  | .statements ss, ts, n =>
    ∀ {expr l p c us items q}, Ready expr l p (ts ++ c :: us) → c.kind = .closeBrace →
      (Reads (collectWhile (!currentIs .closeBrace ·) (blockItem expr)) p items q ↔
        n ≤ l ∧ items = ss.map some ∧ q = p.skip ts.length)

namespace Parsing

variable {expr : Power → ParseM Expr} {l k m n : Nat} {p q : Parser} {bp s : Power}
  {ts us as bs : List Token}

/-! ### Expressions -/

/-- Tokens that have a first one are not empty. -/
theorem ne_nil_of_begins {P : Kind → Prop} (h : ∃ t us, ts = t :: us ∧ P t.kind) : ts ≠ [] := by
  obtain ⟨t, us, rfl, -⟩ := h
  exact List.cons_ne_nil t us

/-- A whole expression takes one level and stops at what does not belong to it. -/
theorem read_expr {e : Expr} (hts : ts ≠ []) (he : (Phrase.part e s).Read ts n) (hs : bp.Admits s) :
    (Phrase.expr bp e).Read ts (n + 1) := by
  intro expr l p t us x q h ht
  have hexpr : Reads (expr bp) p x q ↔ Reads (exprWithin l bp) p x q := by
    rw [Reads, Reads, h.exec_eq bp p h.levels_eq]
  rw [hexpr]
  cases l with
  | zero =>
    -- no level is left, so the rule only reports
    exact ⟨fun hreads => absurd hreads not_reads_exprWithin_zero,
      fun hreads => absurd hreads.1 (by simp)⟩
  | succ l =>
    -- one level further in the same tokens are ahead
    obtain ⟨hdepth, hinner⟩ := h.nested
    have hlast := hinner.skip_pred hts
    have hstop : ((p.withDepth (p.depth + 1)).skip (ts.length - 1)).operatorAhead? bp = none :=
      Parser.operatorAhead?_eq_none hlast.standard (hlast.peek ▸ ht.2)
    have hclosed : (((p.withDepth (p.depth + 1)).skip (ts.length - 1)).withDepth p.depth) =
        p.skip (ts.length - 1) := by
      rw [Parser.skip_withDepth, Parser.withDepth_withDepth,
        ← (Parser.later_skip p (ts.length - 1)).depth_eq, Parser.withDepth_self]
    rw [reads_exprWithin_succ]
    constructor
    · rintro ⟨-, r, hr, rfl⟩
      obtain ⟨hn, hcontinue⟩ := (he hinner (ht.of_admits hs) hs).1 hr
      obtain ⟨rfl, rfl⟩ := (reads_continueExpr_none hstop).1 hcontinue
      refine ⟨by omega, rfl, ?_⟩
      rw [(Parser.later_skip _ _).depth_eq]
      exact hclosed
    · rintro ⟨hn, rfl, rfl⟩
      refine ⟨hdepth, _, (he hinner (ht.of_admits hs) hs).2
        ⟨by omega, (reads_continueExpr_none hstop).2 ⟨rfl, rfl⟩⟩, ?_⟩
      rw [(Parser.later_skip _ _).depth_eq]
      exact hclosed.symm

/-- A part whose rule reads it exactly is read so. -/
theorem read_part {e : Expr} {t : Token} (rule : PrefixRule) {expr : Power → ParseM Expr}
    {x : Expr} {k : Nat} (h : Ready expr l p (t :: ts))
    (hrule : Grammar.standardPrefixRule? t.kind = some rule)
    (hpart : ∀ {left r}, Reads (prefixBy expr rule) p left r ↔ n ≤ l ∧ left = e ∧ r = p.skip k) :
    Reads (climb expr bp) p x q ↔ n ≤ l ∧ Reads (continueExpr expr bp e) (p.skip k) x q := by
  rw [h.reads_climb hrule]
  constructor
  · rintro ⟨left, r, hleft, hcontinue⟩
    obtain ⟨hn, rfl, rfl⟩ := hpart.1 hleft
    exact ⟨hn, hcontinue⟩
  · rintro ⟨hn, hcontinue⟩
    exact ⟨e, p.skip k, hpart.2 ⟨hn, rfl, rfl⟩, hcontinue⟩

theorem read_identifier {t : Token} (ht : t.kind = .identifier) :
    (Phrase.part (.identifier (.ofToken t)) .call).Read [t] 0 := by
  intro expr l p u us bp x q h _ _
  refine read_part .identifier h (by rw [ht]; rfl) fun {left r} => ?_
  rw [prefixBy, identifier, reads_currentToken_bind, reads_pure, h.current]
  simp

theorem read_integer {t : Token} {value : Int} (ht : t.kind = .integer)
    (hvalue : integerValue? t.text = some value) :
    (Phrase.part (.integer t value) .call).Read [t] 0 := by
  intro expr l p u us bp x q h _ _
  refine read_part .integer h (by rw [ht]; rfl) fun {left r} => ?_
  rw [prefixBy, reads_integer, h.current]
  simp [hvalue]

theorem read_boolean {t : Token} (ht : t.kind = .kwTrue ∨ t.kind = .kwFalse) :
    (Phrase.part (.boolean t (t.kind == .kwTrue)) .call).Read [t] 0 := by
  intro expr l p u us bp x q h _ _
  refine read_part .boolean h (by rcases ht with ht | ht <;> rw [ht] <;> rfl)
    fun {left r} => ?_
  rw [prefixBy, boolean, reads_currentToken_bind, reads_pure, h.current]
  simp

theorem read_grouping {o c : Token} {e : Expr} (ho : o.kind = .openParen) (hts : ts ≠ [])
    (he : (Phrase.expr .lowest e).Read ts n) (hc : c.kind = .closeParen) :
    (Phrase.part e .call).Read (o :: (ts ++ [c])) n := by
  intro expr l p t us bp x q h _ _
  have hinner : Ready expr l p.advance (ts ++ c :: t :: us) := by
    simpa using h.advance
  have hlast := hinner.skip_pred hts
  have hpeek : (p.advance.skip (ts.length - 1)).peek.kind = .closeParen := by rw [hlast.peek, hc]
  have hlength : (p.advance.skip (ts.length - 1)).advance = p.skip ((o :: (ts ++ [c])).length - 1) := by
    rw [Parser.advance_skip_pred _ hts, ← Parser.skip_succ]
    simp
  have hread (y r) := @he expr l _ c (t :: us) y r hinner (by rw [hc]; decide)
  refine read_part .grouping h (by rw [ho]; rfl) fun {left r} => ?_
  rw [prefixBy, reads_grouping h.candid]
  constructor
  · rintro ⟨s, hs, -, rfl⟩
    obtain ⟨hn, rfl, rfl⟩ := (hread _ _).1 hs
    exact ⟨hn, rfl, hlength⟩
  · rintro ⟨hn, rfl, rfl⟩
    exact ⟨_, (hread _ _).2 ⟨hn, rfl, rfl⟩, hpeek, hlength.symm⟩

theorem read_prefixOp {o : Token} {e : Expr} (ho : o.kind = .bang ∨ o.kind = .minus) (hts : ts ≠ [])
    (he : (Phrase.expr .unary e).Read ts n) :
    (Phrase.part (.prefixOp o o.text (some e)) .unary).Read (o :: ts) n := by
  intro expr l p t us bp x q h ht _
  have hlength : p.advance.skip (ts.length - 1) = p.skip ((o :: ts).length - 1) := by
    have hpos := List.length_pos_iff.2 hts
    rw [← Parser.skip_succ]
    refine congrArg p.skip ?_
    simp
    omega
  have hread (y r) := @he expr l _ t us y r h.advance ht
  refine read_part .unary h (by rcases ho with ho | ho <;> rw [ho] <;> rfl)
    fun {left r} => ?_
  rw [prefixBy, reads_unary h.candid, h.current]
  constructor
  · rintro ⟨y, hy, rfl⟩
    obtain ⟨hn, rfl, rfl⟩ := (hread _ _).1 hy
    exact ⟨hn, rfl, hlength⟩
  · rintro ⟨hn, rfl, rfl⟩
    exact ⟨e, (hread _ _).2 ⟨hn, rfl, hlength.symm⟩, rfl⟩

/-- The power of a sign between two operands is below that of an operator before its operand. -/
theorem lt_unary_of_binaryPower? {k : Kind} (h : k.binaryPower? = some bp) : bp < .unary := by
  cases k <;> simp [Kind.binaryPower?] at h <;> subst h <;> decide

/-- A sign between two operands does not belong to what binds at least as tightly. -/
theorem follows_of_binaryPower? {k : Kind} (h : k.binaryPower? = some bp) (hs : bp ≤ s) :
    k.Follows s := by
  cases k <;> simp [Kind.binaryPower?] at h <;> subst h <;> exact ⟨by decide, hs⟩

/-- An operator continues what stands before it as the left operand. -/
theorem read_infixOp {o : Token} {a b : Expr} {pow : Power} (has : as ≠ []) (hbs : bs ≠ [])
    (ha : (Phrase.part a s).Read as m) (ho : o.kind.binaryPower? = some pow) (hs : pow ≤ s)
    (hb : (Phrase.expr pow b).Read bs n) :
    (Phrase.part (.infixOp o o.text a (some b)) pow).Read (as ++ o :: bs) (max m n) := by
  intro expr l p t us bp x q h ht hbp
  -- where an operator before its operand is asked for, no other operator may come first
  have hlt : bp < pow := by
    rcases hbp with hlt | ⟨-, rfl⟩
    · exact hlt
    · exact absurd (lt_unary_of_binaryPower? ho) (by decide)
  have hleft : Ready expr l p (as ++ o :: (bs ++ t :: us)) := by simpa using h
  have hlast := hleft.skip_pred has
  have hoperator := hlast.advance
  have hright := hoperator.advance
  have hpeek : (p.skip (as.length - 1)).peek.kind.binaryPower? = some pow := by rw [hlast.peek, ho]
  have hlength : (p.skip (as.length - 1)).advance.advance.skip (bs.length - 1) =
      p.skip ((as ++ o :: bs).length - 1) := by
    have hpos := List.length_pos_iff.2 hbs
    rw [Parser.advance_skip_pred _ has, Parser.advance_skip, Parser.skip_skip]
    refine congrArg p.skip ?_
    simp
    omega
  have hread (y r) := @hb expr l _ t us y r hright ht
  -- the left operand leaves the continuation before the operator, which it takes in its next round
  rw [ha hleft (follows_of_binaryPower? ho hs) (.inl (Nat.lt_of_lt_of_le hlt hs)),
    reads_continueExpr_some h.candid hlast.standard
      (Parser.operatorAhead?_binary hlast.standard hpeek hlt)]
  constructor
  · rintro ⟨hm, y, r, hy, hcontinue⟩
    obtain ⟨z, hz, rfl⟩ := (reads_binary h.candid).1 hy
    obtain ⟨hn, rfl, rfl⟩ := (hread _ _).1 hz
    rw [hoperator.current, hlength] at hcontinue
    exact ⟨Nat.max_le.2 ⟨hm, hn⟩, hcontinue⟩
  · rintro ⟨hmn, hcontinue⟩
    obtain ⟨hm, hn⟩ := Nat.max_le.1 hmn
    refine ⟨hm, _, _, (reads_binary h.candid).2 ⟨b, (hread _ _).2 ⟨hn, rfl, rfl⟩, rfl⟩, ?_⟩
    rwa [hoperator.current, hlength]

/-- A call continues what stands before it as the callee. -/
theorem read_call {o c : Token} {f : Expr} {xs : List Expr} (has : as ≠ [])
    (hf : (Phrase.part f .call).Read as m) (ho : o.kind = .openParen)
    (hxs : (Phrase.arguments xs).Read bs n) (hc : c.kind = .closeParen) :
    (Phrase.part (.call o f xs) .call).Read (as ++ o :: (bs ++ [c])) (max m n) := by
  intro expr l p t us bp x q h _ hbp
  have hlt : bp < .call := by
    rcases hbp with hlt | ⟨-, hs⟩
    · exact hlt
    · exact absurd hs (by decide)
  have hcallee : Ready expr l p (as ++ o :: (bs ++ c :: t :: us)) := by simpa using h
  have hlast := hcallee.skip_pred has
  have hopen := hlast.advance
  have hpeek : (p.skip (as.length - 1)).peek.kind = .openParen := by rw [hlast.peek, ho]
  have hlength : (p.skip (as.length - 1)).advance.skip (bs.length + 1) =
      p.skip ((as ++ o :: (bs ++ [c])).length - 1) := by
    rw [Parser.advance_skip_pred _ has, Parser.skip_skip]
    refine congrArg p.skip ?_
    simp
  have hread (ys r) := @hxs expr l _ o c (t :: us) ys r hopen hc
  -- the parenthesis binds tightest, so the continuation takes it behind any callee
  rw [hf hcallee ⟨by rw [ho]; decide, by rw [ho]; decide⟩ (.inl hlt),
    reads_continueExpr_some h.candid hlast.standard
      (Parser.operatorAhead?_call hlast.standard hpeek hlt)]
  constructor
  · rintro ⟨hm, y, r, hy, hcontinue⟩
    obtain ⟨zs, hzs, rfl⟩ := (reads_call h.candid).1 hy
    obtain ⟨hn, rfl, rfl⟩ := (hread _ _).1 hzs
    rw [hopen.current, hlength] at hcontinue
    exact ⟨Nat.max_le.2 ⟨hm, hn⟩, hcontinue⟩
  · rintro ⟨hmn, hcontinue⟩
    obtain ⟨hm, hn⟩ := Nat.max_le.1 hmn
    refine ⟨hm, _, _, (reads_call h.candid).2 ⟨xs, (hread _ _).2 ⟨hn, rfl, rfl⟩, rfl⟩, ?_⟩
    rwa [hopen.current, hlength]

/-! ### Lists between parentheses -/

theorem read_noArguments : (Phrase.arguments []).Read [] 0 := by
  intro expr l p o c us ys q h hc
  have hclose : peekIs .closeParen p = true := by simp [peekIs, Ready.peek h, hc]
  rw [reads_arguments h.candid, if_pos hclose]
  simp [Parser.skip_succ]

/-- Behind a list that begins as it should, or at its closing token, something comes that is as it
should be. -/
theorem exists_head {P : Token → Prop} {c : Token} (hbs : ∀ b ∈ bs.head?, P b) (hc : P c) :
    ∃ t vs, bs ++ c :: us = t :: vs ∧ P t := by
  cases bs with
  | nil => exact ⟨c, us, rfl, hc⟩
  | cons b bs => exact ⟨b, bs ++ c :: us, rfl, hbs b rfl⟩

/-- An argument and the loop over the others. -/
theorem read_argument {x : Expr} {xs : List Expr} {c : Token}
    (has : as ≠ []) (hbs : ∀ b ∈ bs.head?, b.kind = .comma)
    (hx : (Phrase.expr .lowest x).Read as m) (hxs : (Phrase.furtherArguments xs).Read bs n)
    (h : Ready expr l p (as ++ (bs ++ c :: us))) (hc : c.kind = .closeParen) (y : Expr)
    (zs : List (Option Expr)) :
    (∃ r, Reads (expr .lowest) p y r ∧
      Reads (collectWhile (peekIs .comma) (do advance; argument expr)) r zs q) ↔
      max m n ≤ l ∧ y = x ∧ zs = xs.map some ∧ q = p.skip ((as ++ bs).length - 1) := by
  obtain ⟨t, vs, hvs, ht⟩ : ∃ t vs, bs ++ c :: us = t :: vs ∧ t.kind.Follows .lowest :=
    exists_head (P := fun t => t.kind.Follows .lowest) (fun b hb => by rw [hbs b hb]; decide)
      (by rw [hc]; decide)
  have hlast := h.skip_pred has
  have hread (y r) := @hx expr l p t vs y r (hvs ▸ h) ht
  have hlength := p.skip_pred_skip has bs
  constructor
  · rintro ⟨r, hy, hzs⟩
    obtain ⟨hm, rfl, rfl⟩ := (hread _ _).1 hy
    obtain ⟨hn, rfl, rfl⟩ := (hxs hlast hc).1 hzs
    exact ⟨Nat.max_le.2 ⟨hm, hn⟩, rfl, rfl, hlength⟩
  · rintro ⟨hmn, rfl, rfl, rfl⟩
    obtain ⟨hm, hn⟩ := Nat.max_le.1 hmn
    exact ⟨_, (hread _ _).2 ⟨hm, rfl, rfl⟩, (hxs hlast hc).2 ⟨hn, rfl, hlength.symm⟩⟩

theorem read_arguments {x : Expr} {xs : List Expr}
    (has : ∃ t us, as = t :: us ∧ t.kind.StartsExpr) (hbs : ∀ b ∈ bs.head?, b.kind = .comma)
    (hx : (Phrase.expr .lowest x).Read as m) (hxs : (Phrase.furtherArguments xs).Read bs n) :
    (Phrase.arguments (x :: xs)).Read (as ++ bs) (max m n) := by
  intro expr l p o c us ys q h hc
  have hne := ne_nil_of_begins has
  have hopen : ¬ peekIs .closeParen p = true := by
    obtain ⟨t, vs, rfl, ht⟩ := has
    rw [peekIs, Ready.peek h, beq_iff_eq]
    rintro hk
    rw [hk] at ht
    exact absurd ht (by decide)
  have hfirst : Ready expr l p.advance (as ++ (bs ++ c :: us)) := by simpa using h.advance
  have hclose : (p.advance.skip ((as ++ bs).length - 1)).peek.kind = .closeParen := by
    have hlast := (List.append_assoc as bs _ ▸ hfirst : Ready expr l _ ((as ++ bs) ++ c :: us)).skip_pred
      (by simp [hne])
    rw [hlast.peek, hc]
  have hlength : (p.advance.skip ((as ++ bs).length - 1)).advance = p.skip ((as ++ bs).length + 1) := by
    rw [Parser.advance_skip_pred _ (List.append_ne_nil_of_left_ne_nil hne bs), ← Parser.skip_succ]
  have hread (y zs s) := read_argument (q := s) hne hbs hx hxs hfirst hc y zs
  rw [reads_arguments h.candid, if_neg hopen]
  constructor
  · rintro ⟨y, r, zs, hy, rfl, s, hzs, -, rfl⟩
    obtain ⟨hmn, rfl, hlist, rfl⟩ := (hread _ _ _).1 ⟨r, hy, hzs⟩
    rw [List.map_inj_right fun _ _ => Option.some.inj] at hlist
    exact ⟨hmn, by rw [hlist], hlength⟩
  · rintro ⟨hmn, rfl, rfl⟩
    obtain ⟨r, hy, hzs⟩ := (hread x (xs.map some) _).2 ⟨hmn, rfl, rfl, rfl⟩
    exact ⟨x, r, xs, hy, rfl, _, hzs, hclose, hlength.symm⟩

theorem read_lastArgument : (Phrase.furtherArguments []).Read [] 0 := by
  intro expr l p o c us ys q h hc
  have hclose : peekIs .comma p = false := by simp [peekIs, Ready.peek h, hc]
  rw [reads_collectWhile_false hclose]
  simp

theorem read_furtherArgument {d : Token} {x : Expr} {xs : List Expr} (hd : d.kind = .comma)
    (has : as ≠ []) (hbs : ∀ b ∈ bs.head?, b.kind = .comma)
    (hx : (Phrase.expr .lowest x).Read as m) (hxs : (Phrase.furtherArguments xs).Read bs n) :
    (Phrase.furtherArguments (x :: xs)).Read (d :: (as ++ bs)) (max m n) := by
  intro expr l p o c us ys q h hc
  have hcomma : peekIs .comma p = true := by simp [peekIs, Ready.peek h, hd]
  have hfirst : Ready expr l p.advance.advance (as ++ (bs ++ c :: us)) := by
    simpa using h.advance.advance
  have hlength : p.advance.advance.skip ((as ++ bs).length - 1) =
      p.skip (d :: (as ++ bs)).length := by
    have hpos := List.length_pos_iff.2 has
    rw [← Parser.skip_succ, ← Parser.skip_succ]
    refine congrArg p.skip ?_
    simp
    omega
  have hread (y zs) := read_argument (q := q) has hbs hx hxs hfirst hc y zs
  have hitem := (candid_argument h.candid).keeps
  rw [reads_collectWhile_true (candid_advance.bind fun _ => candid_argument h.candid).keeps
    (consuming_peekIs .comma (by decide) hitem) h.standard hcomma]
  constructor
  · rintro ⟨o, r, zs, rfl, ho, hzs⟩
    rw [reads_advance_bind, reads_argument h.candid] at ho
    obtain ⟨y, rfl, hy⟩ := ho
    obtain ⟨hmn, rfl, rfl, rfl⟩ := (hread _ _).1 ⟨r, hy, hzs⟩
    exact ⟨hmn, rfl, hlength⟩
  · rintro ⟨hmn, rfl, rfl⟩
    obtain ⟨r, hy, hzs⟩ := (hread x (xs.map some)).2 ⟨hmn, rfl, rfl, hlength.symm⟩
    refine ⟨some x, r, xs.map some, rfl, ?_, hzs⟩
    rw [reads_advance_bind, reads_argument h.candid]
    exact ⟨x, rfl, hy⟩

theorem read_noParameters : (Phrase.parameters []).Read [] 0 := by
  intro expr l p o c us js q h hc
  have hclose : peekIs .closeParen p = true := by simp [peekIs, Ready.peek h, hc]
  rw [reads_parameters, if_pos hclose]
  simp [Parser.skip_succ]

theorem read_parameters {t : Token} {is : List Identifier} (ht : t.kind = .identifier)
    (his : (Phrase.furtherParameters is).Read ts 0) :
    (Phrase.parameters (.ofToken t :: is)).Read (t :: ts) 0 := by
  intro expr l p o c us js q h hc
  have hopen : ¬ peekIs .closeParen p = true := by simp [peekIs, Ready.peek h, ht]
  have hnext : Ready expr l p.advance (t :: (ts ++ c :: us)) := h.advance
  have hclose : (p.advance.skip ts.length).peek.kind = .closeParen := by
    have hlast := (show Ready expr l p.advance ((t :: ts) ++ _) from hnext).skip_pred
      (List.cons_ne_nil _ _)
    rw [List.length_cons, Nat.add_sub_cancel] at hlast
    rw [hlast.peek, hc]
  have hlength : (p.advance.skip ts.length).advance = p.skip ((t :: ts).length + 1) := by
    rw [Parser.advance_skip, ← Parser.skip_succ, List.length_cons]
  rw [reads_parameters, if_neg hopen]
  constructor
  · rintro ⟨i, r, js, hi, rfl, s, hjs, -, rfl⟩
    obtain ⟨-, rfl, rfl⟩ := reads_parameter.1 hi
    obtain ⟨rfl, rfl⟩ := (his hnext hc).1 hjs
    exact ⟨by rw [Ready.peek h], hlength⟩
  · rintro ⟨rfl, rfl⟩
    refine ⟨.ofToken t, p.advance, is, reads_parameter.2 ⟨?_, ?_, rfl⟩, rfl, _,
      (his hnext hc).2 ⟨rfl, rfl⟩, hclose, hlength.symm⟩
    · rw [Ready.peek h, ht]
    · rw [Ready.peek h]

theorem read_lastParameter : (Phrase.furtherParameters []).Read [] 0 := by
  intro expr l p o c us js q h hc
  have hclose : peekIs .comma p = false := by simp [peekIs, Ready.peek h, hc]
  rw [reads_collectWhile_false hclose]
  simp

theorem read_furtherParameter {d t : Token} {is : List Identifier} (hd : d.kind = .comma)
    (ht : t.kind = .identifier) (his : (Phrase.furtherParameters is).Read ts 0) :
    (Phrase.furtherParameters (.ofToken t :: is)).Read (d :: t :: ts) 0 := by
  intro expr l p o c us js q h hc
  have hcomma : peekIs .comma p = true := by simp [peekIs, Ready.peek h, hd]
  have hname : Ready expr l p.advance (d :: t :: (ts ++ c :: us)) := h.advance
  have hlength : p.advance.advance.skip ts.length = p.skip (d :: t :: ts).length := by
    rw [← Parser.skip_succ, ← Parser.skip_succ, List.length_cons, List.length_cons]
  rw [reads_collectWhile_true (candid_advance.bind fun _ => candid_parameter).keeps
    (consuming_peekIs .comma (by decide) candid_parameter.keeps) h.standard hcomma]
  constructor
  · rintro ⟨i, r, js, rfl, hi, hjs⟩
    rw [reads_advance_bind, reads_parameter] at hi
    obtain ⟨-, rfl, rfl⟩ := hi
    obtain ⟨rfl, rfl⟩ := (his hname.advance hc).1 hjs
    exact ⟨by rw [hname.peek], hlength⟩
  · rintro ⟨rfl, rfl⟩
    refine ⟨.ofToken t, p.advance.advance, is, rfl, ?_,
      (his hname.advance hc).2 ⟨rfl, hlength.symm⟩⟩
    rw [reads_advance_bind, reads_parameter, hname.peek]
    exact ⟨ht, rfl, rfl⟩

/-! ### Blocks and what holds them -/

/-- Items that are all there are the statements of a block. -/
@[simp] theorem filterMap_id_map_some {α : Type} (as : List α) :
    (as.map some).filterMap id = as := by
  simp [List.filterMap_map]

theorem read_block {o c : Token} {ss : List Statement} (hss : (Phrase.statements ss).Read ts n)
    (hc : c.kind = .closeBrace) : (Phrase.block ⟨o, ss⟩).Read (o :: (ts ++ [c])) n := by
  intro expr l p us b q h
  have hinner : Ready expr l p.advance (ts ++ c :: us) := by simpa using h.advance
  have hlength : p.advance.skip ts.length = p.skip ((o :: (ts ++ [c])).length - 1) := by
    rw [← Parser.skip_succ]
    refine congrArg p.skip ?_
    simp
  rw [reads_block h.candid, Ready.current h]
  constructor
  · rintro ⟨items, hitems, rfl⟩
    obtain ⟨hn, rfl, rfl⟩ := (hss hinner hc).1 hitems
    exact ⟨hn, by rw [filterMap_id_map_some], hlength⟩
  · rintro ⟨hn, rfl, rfl⟩
    exact ⟨ss.map some, (hss hinner hc).2 ⟨hn, rfl, hlength.symm⟩, by rw [filterMap_id_map_some]⟩

theorem read_noAlternative : (Phrase.alternative none).Read [] 0 := by
  intro expr l p u t us b q h ht
  have hno : ¬ peekIs .kwElse p = true := by simpa [peekIs, Ready.peek h] using ht
  rw [reads_otherwise h.candid, if_neg hno]
  simp

theorem read_alternative {e : Token} {b : Block} (he : e.kind = .kwElse)
    (hts : ∃ t us, ts = t :: us ∧ t.kind = .openBrace) (hb : (Phrase.block b).Read ts n) :
    (Phrase.alternative (some b)).Read (e :: ts) n := by
  intro expr l p u t us a q h _
  have helse : peekIs .kwElse p = true := by simp [peekIs, Ready.peek h, he]
  have hkeyword : Ready expr l p.advance (e :: (ts ++ t :: us)) := h.advance
  have hbrace : p.advance.peek.kind = .openBrace := by
    obtain ⟨o, vs, rfl, ho⟩ := hts
    rw [hkeyword.peek, ho]
  have hlength : p.advance.advance.skip (ts.length - 1) = p.skip (e :: ts).length := by
    have hpos := List.length_pos_iff.2 (ne_nil_of_begins (P := (· = .openBrace)) hts)
    rw [← Parser.skip_succ, ← Parser.skip_succ]
    refine congrArg p.skip ?_
    simp
    omega
  have hread (c r) := @hb expr l _ (t :: us) c r hkeyword.advance
  rw [reads_otherwise h.candid, if_pos helse]
  constructor
  · rintro ⟨-, c, hc, rfl⟩
    obtain ⟨hn, rfl, rfl⟩ := (hread _ _).1 hc
    exact ⟨hn, rfl, hlength⟩
  · rintro ⟨hn, rfl, rfl⟩
    exact ⟨hbrace, b, (hread _ _).2 ⟨hn, rfl, hlength.symm⟩, rfl⟩

theorem read_conditional {i o c : Token} {e : Expr} {a : Block} {b : Option Block}
    (hi : i.kind = .kwIf) (ho : o.kind = .openParen) (hts : ts ≠ [])
    (he : (Phrase.expr .lowest e).Read ts k) (hc : c.kind = .closeParen)
    (has : ∃ t us, as = t :: us ∧ t.kind = .openBrace) (ha : (Phrase.block a).Read as m)
    (hb : (Phrase.alternative b).Read bs n) :
    (Phrase.part (.conditional i (some e) a b) .call).Read (i :: o :: (ts ++ c :: (as ++ bs)))
      (max k (max m n)) := by
  intro expr l p t us bp x q h ht _
  have hne := ne_nil_of_begins (P := (· = .openBrace)) has
  have hcondition : Ready expr l p.advance.advance (ts ++ c :: (as ++ (bs ++ t :: us))) := by
    simpa using h.advance.advance
  have hlast := hcondition.skip_pred hts
  have hclose := hlast.advance
  have hblock := hclose.advance
  have hend := hblock.skip_pred hne
  have hbrace : (p.advance.advance.skip (ts.length - 1)).advance.peek.kind = .openBrace := by
    obtain ⟨u, vs, rfl, hu⟩ := has
    rw [hclose.peek, hu]
  have hlength :
      ((p.advance.advance.skip (ts.length - 1)).advance.advance.skip (as.length - 1)).skip bs.length =
        p.skip ((i :: o :: (ts ++ c :: (as ++ bs))).length - 1) := by
    have hpos := List.length_pos_iff.2 hts
    have hpos' := List.length_pos_iff.2 hne
    rw [Parser.advance_skip, Parser.advance_skip, Parser.skip_skip, Parser.skip_skip,
      ← Parser.skip_succ, ← Parser.skip_succ]
    refine congrArg p.skip ?_
    simp
    omega
  -- the three parts end where the next one begins: at `)`, at `}` and before the following token
  have hread (y r) := @he expr l _ c (as ++ (bs ++ t :: us)) y r hcondition (by rw [hc]; decide)
  refine read_part .conditional h (by rw [hi]; rfl) fun {left r} => ?_
  rw [prefixBy, reads_conditional h.candid, Ready.current h, Ready.peek h]
  constructor
  · rintro ⟨-, y, s, hy, -, -, d, u, hd, f, hf, rfl⟩
    obtain ⟨hk, rfl, rfl⟩ := (hread _ _).1 hy
    obtain ⟨hm, rfl, rfl⟩ := (ha hblock).1 hd
    obtain ⟨hn, rfl, rfl⟩ := (hb hend ht.1).1 hf
    exact ⟨Nat.max_le.2 ⟨hk, Nat.max_le.2 ⟨hm, hn⟩⟩, rfl, hlength⟩
  · rintro ⟨hkmn, rfl, rfl⟩
    obtain ⟨hk, hmn⟩ := Nat.max_le.1 hkmn
    obtain ⟨hm, hn⟩ := Nat.max_le.1 hmn
    exact ⟨ho, e, _, (hread _ _).2 ⟨hk, rfl, rfl⟩, by rw [hlast.peek, hc], hbrace, a, _,
      (ha hblock).2 ⟨hm, rfl, rfl⟩, b, (hb hend ht.1).2 ⟨hn, rfl, hlength.symm⟩, rfl⟩

theorem read_function {f o c : Token} {is : List Identifier} {b : Block} (hf : f.kind = .kwFn)
    (ho : o.kind = .openParen) (his : (Phrase.parameters is).Read ts 0) (hc : c.kind = .closeParen)
    (hbs : ∃ t us, bs = t :: us ∧ t.kind = .openBrace) (hb : (Phrase.block b).Read bs n) :
    (Phrase.part (.function f is b) .call).Read (f :: o :: (ts ++ c :: bs)) n := by
  intro expr l p t us bp x q h _ _
  have hne := ne_nil_of_begins (P := (· = .openBrace)) hbs
  have hparameters : Ready expr l p.advance (o :: (ts ++ c :: (bs ++ t :: us))) := by
    simpa using h.advance
  have hclose : Ready expr l (p.advance.skip (ts.length + 1)) (c :: (bs ++ t :: us)) :=
    (show Ready expr l p.advance ((o :: ts) ++ _) from hparameters).skip
  have hbrace : (p.advance.skip (ts.length + 1)).peek.kind = .openBrace := by
    obtain ⟨u, vs, rfl, hu⟩ := hbs
    rw [hclose.peek, hu]
  have hlength : (p.advance.skip (ts.length + 1)).advance.skip (bs.length - 1) =
      p.skip ((f :: o :: (ts ++ c :: bs)).length - 1) := by
    have hpos := List.length_pos_iff.2 hne
    rw [Parser.advance_skip, Parser.skip_skip, ← Parser.skip_succ]
    refine congrArg p.skip ?_
    simp
    omega
  refine read_part .function h (by rw [hf]; rfl) fun {left r} => ?_
  rw [prefixBy, reads_function h.candid, Ready.current h, Ready.peek h]
  constructor
  · rintro ⟨-, js, s, hjs, -, d, hd, rfl⟩
    obtain ⟨rfl, rfl⟩ := (his hparameters hc).1 hjs
    obtain ⟨hn, rfl, rfl⟩ := (hb hclose.advance).1 hd
    exact ⟨hn, rfl, hlength⟩
  · rintro ⟨hn, rfl, rfl⟩
    exact ⟨ho, is, _, (his hparameters hc).2 ⟨rfl, rfl⟩, hbrace, b,
      (hb hclose.advance).2 ⟨hn, rfl, hlength.symm⟩, rfl⟩

/-! ### Statements -/

/-- Behind the expression of a statement something comes that does not belong to it: its own
semicolon, or what follows a statement without one. -/
theorem exists_follows {t : Token} (vs : List Token)
    (hts : ∃ ws w, ts = ws ++ [w] ∧ w.kind.EndsExpr) (hus : ∀ u ∈ us, u.kind = .semicolon)
    (hlast : (ts ++ us).getLast?.map Token.kind = some .semicolon ∨ t.kind.Follows .lowest) :
    ∃ u ws, us ++ t :: vs = u :: ws ∧ u.kind.Follows .lowest := by
  cases us with
  | cons u us =>
    refine ⟨u, us ++ t :: vs, rfl, ?_⟩
    rw [hus u List.mem_cons_self]
    decide
  | nil =>
    rcases hlast with hlast | ht
    · -- an expression does not end in a semicolon
      obtain ⟨ws, w, rfl, hw⟩ := hts
      rw [List.append_nil, List.getLast?_concat, Option.map_some, Option.some.injEq] at hlast
      rw [hlast] at hw
      exact absurd hw (by decide)
    · exact ⟨t, vs, rfl, ht⟩

/-- The value of a binding or a return and the semicolons behind it. -/
theorem read_value {e x : Expr} {t : Token} {vs : List Token}
    (hts : ∃ ws w, ts = ws ++ [w] ∧ w.kind.EndsExpr) (he : (Phrase.expr .lowest e).Read ts n)
    (hus : ∀ u ∈ us, u.kind = .semicolon) {expr : Power → ParseM Expr}
    (h : Ready expr l p (ts ++ (us ++ t :: vs))) (ht : t.kind ≠ .semicolon)
    (hlast : (ts ++ us).getLast?.map Token.kind = some .semicolon ∨ t.kind.Follows .lowest) :
    (∃ r, Reads (expr .lowest) p x r ∧ Reads skipSemicolons r () q) ↔
      n ≤ l ∧ x = e ∧ q = p.skip ((ts ++ us).length - 1) := by
  have hne : ts ≠ [] := by
    obtain ⟨ws, w, rfl, -⟩ := hts
    simp
  obtain ⟨u, ws, hws, hu⟩ := exists_follows vs hts hus hlast
  have hread (y r) := @he expr l p u ws y r (hws ▸ h) hu
  have hend := h.skip_pred hne
  have hlength := p.skip_pred_skip hne us
  have hskip {r : Parser} := reads_skipSemicolons (q := r) (o := ()) hend.standard hend.rest_eq hus ht
  constructor
  · rintro ⟨r, hx, hr⟩
    obtain ⟨hn, rfl, rfl⟩ := (hread _ _).1 hx
    exact ⟨hn, rfl, (hskip.1 hr).trans hlength⟩
  · rintro ⟨hn, rfl, rfl⟩
    exact ⟨_, (hread _ _).2 ⟨hn, rfl, rfl⟩, hskip.2 hlength.symm⟩

theorem read_binding {b i a : Token} {e : Expr} (hb : b.kind = .kwLet) (hi : i.kind = .identifier)
    (ha : a.kind = .assign) (hts : ∃ ws w, ts = ws ++ [w] ∧ w.kind.EndsExpr)
    (he : (Phrase.expr .lowest e).Read ts n) (hus : ∀ u ∈ us, u.kind = .semicolon) :
    (Phrase.statement (.binding b (.ofToken i) (some e))).Read (b :: i :: a :: (ts ++ us)) n := by
  intro expr l p t vs s q h ht hlast
  have hname := h.advance
  have hvalue : Ready expr l p.advance.advance.advance (ts ++ (us ++ t :: vs)) := by
    simpa using hname.advance.advance
  -- the last token is that of the value and its semicolons
  have hlast' : (ts ++ us).getLast?.map Token.kind = some .semicolon ∨ t.kind.Follows .lowest := by
    have hne : ts ++ us ≠ [] := by
      obtain ⟨ws, w, rfl, -⟩ := hts
      simp
    rwa [List.getLast?_cons_cons, List.getLast?_cons_cons, List.getLast?_cons_of_ne_nil hne] at hlast
  have hlength : p.advance.advance.advance.skip ((ts ++ us).length - 1) =
      p.skip ((b :: i :: a :: (ts ++ us)).length - 1) := by
    obtain ⟨ws, w, rfl, -⟩ := hts
    rw [← Parser.skip_succ, ← Parser.skip_succ, ← Parser.skip_succ]
    refine congrArg p.skip ?_
    simp
    omega
  have hread {x} := read_value (q := q) (x := x) hts he hus hvalue ht hlast'
  rw [reads_statement h.standard, Ready.current h, hb]
  show Reads (binding expr) p s q ↔ _
  rw [reads_binding h.candid, Ready.current h, Ready.peek h, hname.peek]
  constructor
  · rintro ⟨-, -, x, r, hx, hr, rfl⟩
    obtain ⟨hn, rfl, rfl⟩ := hread.1 ⟨r, hx, hr⟩
    exact ⟨hn, rfl, hlength⟩
  · rintro ⟨hn, rfl, rfl⟩
    obtain ⟨r, hx, hr⟩ := hread.2 ⟨hn, rfl, hlength.symm⟩
    exact ⟨hi, ha, e, r, hx, hr, rfl⟩

theorem read_returning {b : Token} {e : Expr} (hb : b.kind = .kwReturn)
    (hts : ∃ ws w, ts = ws ++ [w] ∧ w.kind.EndsExpr) (he : (Phrase.expr .lowest e).Read ts n)
    (hus : ∀ u ∈ us, u.kind = .semicolon) :
    (Phrase.statement (.returning b (some e))).Read (b :: (ts ++ us)) n := by
  intro expr l p t vs s q h ht hlast
  have hvalue : Ready expr l p.advance (ts ++ (us ++ t :: vs)) := by simpa using h.advance
  have hlast' : (ts ++ us).getLast?.map Token.kind = some .semicolon ∨ t.kind.Follows .lowest := by
    have hne : ts ++ us ≠ [] := by
      obtain ⟨ws, w, rfl, -⟩ := hts
      simp
    rwa [List.getLast?_cons_of_ne_nil hne] at hlast
  have hlength : p.advance.skip ((ts ++ us).length - 1) = p.skip ((b :: (ts ++ us)).length - 1) := by
    obtain ⟨ws, w, rfl, -⟩ := hts
    rw [← Parser.skip_succ]
    refine congrArg p.skip ?_
    simp
    omega
  have hread {x} := read_value (q := q) (x := x) hts he hus hvalue ht hlast'
  rw [reads_statement h.standard, Ready.current h, hb]
  show Reads (returning expr) p s q ↔ _
  rw [reads_returning h.candid, Ready.current h]
  constructor
  · rintro ⟨x, r, hx, hr, rfl⟩
    obtain ⟨hn, rfl, rfl⟩ := hread.1 ⟨r, hx, hr⟩
    exact ⟨hn, rfl, hlength⟩
  · rintro ⟨hn, rfl, rfl⟩
    obtain ⟨r, hx, hr⟩ := hread.2 ⟨hn, rfl, hlength.symm⟩
    exact ⟨e, r, hx, hr, rfl⟩

/-- A token that starts an expression starts a statement that is one. -/
theorem standardStatementRule?_of_startsExpr {k : Kind} (h : k.StartsExpr) :
    (Grammar.standardStatementRule? k).getD .expression = .expression := by
  cases k <;> first | rfl | exact absurd h (by decide)

theorem read_expression {e : Expr} (hbegins : ∃ w ws, ts = w :: ws ∧ w.kind.StartsExpr)
    (hts : ∃ ws w, ts = ws ++ [w] ∧ w.kind.EndsExpr) (he : (Phrase.expr .lowest e).Read ts n)
    (hlength : us.length ≤ 1) (hus : ∀ u ∈ us, u.kind = .semicolon) :
    (Phrase.statement (.expression e)).Read (ts ++ us) n := by
  intro expr l p t vs s q h ht hlast
  have hne := ne_nil_of_begins hbegins
  have hvalue : Ready expr l p (ts ++ (us ++ t :: vs)) := by simpa using h
  obtain ⟨u, ws, hws, hu⟩ := exists_follows vs hts hus hlast
  have hread (y r) := @he expr l p u ws y r (hws ▸ hvalue) hu
  have hend := hvalue.skip_pred hne
  have hstop : (if peekIs .semicolon (p.skip (ts.length - 1)) then (p.skip (ts.length - 1)).advance
      else p.skip (ts.length - 1)) = p.skip ((ts ++ us).length - 1) := by
    have hpos := List.length_pos_iff.2 hne
    -- there is no semicolon, one semicolon, or more than the grammar allows
    rcases us with _ | ⟨v, _ | ⟨w, us⟩⟩
    · have hno : ¬ peekIs .semicolon (p.skip (ts.length - 1)) = true := by
        simpa [peekIs, Ready.peek hend] using ht
      rw [if_neg hno, List.append_nil]
    · have hyes : peekIs .semicolon (p.skip (ts.length - 1)) = true := by
        simp [peekIs, Ready.peek hend, hus v List.mem_cons_self]
      rw [if_pos hyes, Parser.advance_skip]
      refine congrArg p.skip ?_
      simp
      omega
    · exact absurd hlength (by simp)
  have hrule : (Grammar.standardStatementRule? p.current.kind).getD .expression = .expression := by
    obtain ⟨w, ws, rfl, hw⟩ := hbegins
    rw [Ready.current h]
    exact standardStatementRule?_of_startsExpr hw
  rw [reads_statement h.standard, hrule]
  show Reads (expressionStatement expr) p s q ↔ _
  rw [reads_expressionStatement h.candid]
  constructor
  · rintro ⟨x, r, hx, rfl, rfl⟩
    obtain ⟨hn, rfl, rfl⟩ := (hread _ _).1 hx
    exact ⟨hn, rfl, hstop⟩
  · rintro ⟨hn, rfl, rfl⟩
    exact ⟨e, _, (hread _ _).2 ⟨hn, rfl, rfl⟩, hstop.symm, rfl⟩

theorem read_noStatements : (Phrase.statements []).Read [] 0 := by
  intro expr l p c us items q h hc
  have hclose : (!currentIs .closeBrace p) = false := by simp [currentIs, Ready.current h, hc]
  rw [reads_collectWhile_false hclose]
  simp

/-- What comes behind a statement: the next statement or the end of them all. -/
theorem exists_separated {c : Token} (vs : List Token)
    (hus : ∀ u ∈ us.head?, u.kind.StartsStatement) (hseparated : Separated ts us)
    (hc : c.kind ≠ .semicolon ∧ c.kind.Follows .lowest) :
    ∃ t ws, us ++ c :: vs = t :: ws ∧ t.kind ≠ .semicolon ∧
      (ts.getLast?.map Token.kind = some .semicolon ∨ t.kind.Follows .lowest) := by
  cases us with
  | nil => exact ⟨c, vs, rfl, hc.1, .inr hc.2⟩
  | cons u us =>
    obtain ⟨hsemicolon, hbehind⟩ := hseparated.begins (hus u rfl)
    exact ⟨u, us ++ c :: vs, rfl, hsemicolon, hbehind⟩

theorem read_statements {s : Statement} {ss : List Statement}
    (hts : ∃ w ws, ts = w :: ws ∧ w.kind.StartsStatement)
    (hus : ∀ u ∈ us.head?, u.kind.StartsStatement) (hs : (Phrase.statement s).Read ts m)
    (hss : (Phrase.statements ss).Read us n) (hseparated : Separated ts us) :
    (Phrase.statements (s :: ss)).Read (ts ++ us) (max m n) := by
  intro expr l p c vs items q h hc
  have hne := ne_nil_of_begins hts
  have hstatement : Ready expr l p (ts ++ (us ++ c :: vs)) := by simpa using h
  have hcurrent : p.current.kind.StartsStatement := by
    obtain ⟨w, ws, rfl, hw⟩ := hts
    rwa [Ready.current h]
  have hopen : (!currentIs .closeBrace p) = true := by
    simpa [currentIs] using (Kind.ne_of_startsStatement hcurrent).1
  obtain ⟨t, ws, hws, hsemicolon, hlast⟩ :=
    exists_separated vs hus hseparated (c := c) (by rw [hc]; decide)
  have hread (r q) := @hs expr l p t ws r q (hws ▸ hstatement) hsemicolon hlast
  have hnext : Ready expr l (p.skip (ts.length - 1)).advance (us ++ c :: vs) :=
    (hstatement.skip_pred hne).advance
  have hlength : (p.skip (ts.length - 1)).advance.skip us.length = p.skip (ts ++ us).length := by
    rw [Parser.advance_skip_pred _ hne, Parser.skip_skip, List.length_append]
  rw [reads_collectWhile_true (candid_blockItem h.candid).keeps (consuming_blockItem h.candid)
    h.standard hopen]
  constructor
  · rintro ⟨o, r, rest, rfl, ho, hrest⟩
    obtain ⟨-, x, r, rfl, hx, rfl⟩ := (reads_blockItem h.candid).1 ho
    obtain ⟨hm, rfl, rfl⟩ := (hread _ _).1 hx
    obtain ⟨hn, rfl, rfl⟩ := (hss hnext hc).1 hrest
    exact ⟨Nat.max_le.2 ⟨hm, hn⟩, rfl, hlength⟩
  · rintro ⟨hmn, rfl, rfl⟩
    obtain ⟨hm, hn⟩ := Nat.max_le.1 hmn
    have hitem := (reads_blockItem h.candid).2 ⟨(Kind.ne_of_startsStatement hcurrent).2, s, _, rfl,
      (hread _ _).2 ⟨hm, rfl, rfl⟩, rfl⟩
    exact ⟨some s, _, ss.map some, rfl, hitem, (hss hnext hc).2 ⟨hn, rfl, hlength.symm⟩⟩

end Parsing

/-- **Completeness**: what the grammar derives is read, if the levels suffice. -/
theorem Derives.read {phrase : Phrase} {ts : List Token} {n : Nat} (h : Derives phrase ts n) :
    phrase.Read ts n := by
  induction h with
  | expr he hs ih => exact read_expr (ne_nil_of_begins he.begins) ih hs
  | identifier ht => exact read_identifier ht
  | integer ht hvalue => exact read_integer ht hvalue
  | boolean ht => exact read_boolean ht
  | grouping ho he hc ih => exact read_grouping ho (ne_nil_of_begins he.begins) ih hc
  | conditional hi ho he hc ha hb ihe iha ihb =>
    exact read_conditional hi ho (ne_nil_of_begins he.begins) ihe hc ha.begins iha ihb
  | function hf ho his hc hb ihis ihb => exact read_function hf ho ihis hc hb.begins ihb
  | prefixOp ho he ih => exact read_prefixOp ho (ne_nil_of_begins he.begins) ih
  | infixOp hl ho hs hr ihl ihr =>
    exact read_infixOp (ne_nil_of_begins hl.begins) (ne_nil_of_begins hr.begins) ihl ho hs ihr
  | call hf ho hxs hc ihf ihxs => exact read_call (ne_nil_of_begins hf.begins) ihf ho ihxs hc
  | noArguments => exact read_noArguments
  | arguments hx hxs ihx ihxs => exact read_arguments hx.begins hxs.begins ihx ihxs
  | lastArgument => exact read_lastArgument
  | furtherArgument hc hx hxs ihx ihxs =>
    exact read_furtherArgument hc (ne_nil_of_begins hx.begins) hxs.begins ihx ihxs
  | noParameters => exact read_noParameters
  | parameters ht his ih => exact read_parameters ht ih
  | lastParameter => exact read_lastParameter
  | furtherParameter hc ht his ih => exact read_furtherParameter hc ht ih
  | block ho hss hc ih => exact read_block ih hc
  | noAlternative => exact read_noAlternative
  | alternative he hb ih => exact read_alternative he hb.begins ih
  | binding hl hi ha he hus ih => exact read_binding hl hi ha he.ends ih hus
  | returning hr he hus ih => exact read_returning hr he.ends ih hus
  | expression he hlength hus ih => exact read_expression he.begins he.ends ih hlength hus
  | noStatements => exact read_noStatements
  | statements hs hss hseparated ihs ihss =>
    exact read_statements hs.begins hss.begins ihs ihss hseparated

end MonkeySyntax
