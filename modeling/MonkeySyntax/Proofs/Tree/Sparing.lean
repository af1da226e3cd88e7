import MonkeySyntax.Proofs.Spacing
import MonkeySyntax.Proofs.Tree.Rendering

/-! # Sparing texts

An expression without blocks can be written down with parentheses only where they are needed to keep
its parts together.

* **`Expr.Plain`** — the expressions that are built of names, numbers, truth values, operators and calls.
* **`Place`**, `Place.encloses` — where an expression stands in another one, and when it needs
  parentheses there.
* **`Expr.sparing`** — the tokens of the sparing text, told by kind and text; `Expr.sparingLevel` — how
  deeply expressions are nested in it.
* `Place.fits_of_encloses` — an expression that needs no parentheses in its place may stand there.
* **`Expr.Plain.readFrom`** — tokens that say what the sparing text does are derived as the expression
  itself. -/

namespace MonkeySyntax

/-! ### Plain expressions -/

/-- **A plain expression**: one without blocks in which no child is missing and every token is what the
grammar asks for in its place. -/
inductive Expr.Plain : Expr → Prop where
  /-- A name. -/
  | identifier {i : Identifier} (hi : i.WellFormed) : Plain (.identifier i)
  /-- A number within the range of literals. -/
  | integer {t : Token} {value : Int} (ht : t.kind = .integer)
    (hvalue : integerValue? t.text = some value) : Plain (.integer t value)
  /-- A truth value. -/
  | boolean {t : Token} {value : Bool}
    (ht : if value then t.Is .kwTrue "true" else t.Is .kwFalse "false") : Plain (.boolean t value)
  /-- An operator before its operand. -/
  | prefixOp {t : Token} {x : Expr} (ht : (t.kind, t.text) ∈ prefixSigns) (hx : Plain x) :
    Plain (.prefixOp t t.text (some x))
  /-- An operator between its operands. -/
  | infixOp {t : Token} {l r : Expr} (ht : (t.kind, t.text) ∈ infixSigns) (hl : Plain l)
    (hr : Plain r) : Plain (.infixOp t t.text l (some r))
  /-- A call. -/
  | call {t : Token} {f : Expr} {xs : List Expr} (ht : t.Is .openParen "(") (hf : Plain f)
    (hxs : ∀ x ∈ xs, Plain x) : Plain (.call t f xs)

/-! ### Parentheses where they are needed -/

/-- The binding power of the outermost operator, if that stands between its operands. -/
def Expr.infixPower? : Expr → Option Power
  | .infixOp t _ _ _ => some (Grammar.standard.power t.kind)
  | _ => none

/-- Whether the outermost operator stands before its operand. -/
def Expr.isPrefix : Expr → Bool
  | .prefixOp _ _ _ => true
  | _ => false

/-- **Where an expression stands** in another one. -/
inductive Place where
  /-- Behind a prefix operator. -/
  | operand
  /-- To the left of an infix operator with the given power. -/
  | left (power : Power)
  /-- To the right of an infix operator with the given power. -/
  | right (power : Power)
  /-- Before the arguments of a call. -/
  | callee
  /-- Among the arguments of a call. -/
  | argument

/-- **Whether an expression needs parentheses** in its place: as an operand of a prefix operator if it is
an infix expression, to the left of an infix operator if it is one with a lower power, to the right if
it is one with a lower power or the same, as a callee if it is an infix or a prefix expression, and as
an argument never. -/
def Place.encloses (x : Expr) : Place → Bool
  | operand => x.infixPower?.isSome
  | left power => x.infixPower?.any (· < power)
  | right power => x.infixPower?.any (· ≤ power)
  | callee => x.infixPower?.isSome || x.isPrefix
  | argument => false

/-- Tokens in parentheses, if these are needed. -/
def enclosed (needed : Bool) (contents : List (Kind × String)) : List (Kind × String) :=
  if needed then (.openParen, "(") :: (contents ++ [(.closeParen, ")")]) else contents

mutual

/-- **The sparing text** of an expression, as the kinds and texts of its tokens. -/
def Expr.sparing : Expr → List (Kind × String)
  | .identifier i => [i.token.content]
  | .integer t _ | .boolean t _ => [t.content]
  | .prefixOp t _ x => t.content :: Expr.sparing? .operand x
  | .infixOp t _ l x =>
    enclosed ((Place.left (Grammar.standard.power t.kind)).encloses l) l.sparing ++
      t.content :: Expr.sparing? (.right (Grammar.standard.power t.kind)) x
  | .call t f xs =>
    enclosed (Place.callee.encloses f) f.sparing ++
      t.content :: (Expr.sparingArguments xs ++ [(.closeParen, ")")])
  | .conditional .. | .function .. => []

/-- The sparing text of a child that may be missing. -/
def Expr.sparing? (place : Place) : Option Expr → List (Kind × String)
  | none => []
  | some x => enclosed (place.encloses x) x.sparing

/-- The sparing text of the arguments of a call. -/
def Expr.sparingArguments : List Expr → List (Kind × String)
  | [] => []
  | x :: xs => enclosed (Place.argument.encloses x) x.sparing ++ Expr.sparingFurther xs

/-- The sparing text of the arguments behind the first one. -/
def Expr.sparingFurther : List Expr → List (Kind × String)
  | [] => []
  | x :: xs =>
    (.comma, ",") :: (enclosed (Place.argument.encloses x) x.sparing ++ Expr.sparingFurther xs)

end

mutual

/-- **The levels of the sparing text**: the expression itself is one, and each operand of a prefix
operator, right operand, pair of parentheses and argument opens one more. -/
def Expr.sparingLevel : Expr → Nat
  | .identifier _ | .integer _ _ | .boolean _ _ => 1
  | .prefixOp _ _ x => 1 + Expr.sparingLevel? .operand x
  | .infixOp t _ l x =>
    max (((Place.left (Grammar.standard.power t.kind)).encloses l).toNat + l.sparingLevel)
      (1 + Expr.sparingLevel? (.right (Grammar.standard.power t.kind)) x)
  | .call _ f xs =>
    max ((Place.callee.encloses f).toNat + f.sparingLevel) (1 + Expr.sparingLevelAll xs)
  | .conditional .. | .function .. => 1

/-- The levels of a child that may be missing, those of its parentheses included. -/
def Expr.sparingLevel? (place : Place) : Option Expr → Nat
  | none => 0
  | some x => (place.encloses x).toNat + x.sparingLevel

/-- The levels of the deepest argument. -/
def Expr.sparingLevelAll : List Expr → Nat
  | [] => 0
  | x :: xs => max ((Place.argument.encloses x).toNat + x.sparingLevel) (Expr.sparingLevelAll xs)

end

/-! ### Strength -/

/-- The **strength** of an expression: the binding power of its outermost operator. -/
def Expr.strength : Expr → Power
  | .infixOp t _ _ _ => Grammar.standard.power t.kind
  | .prefixOp _ _ _ => .unary
  | _ => .call

/-- The power of a sign between two operands. -/
theorem power_of_mem_infixSigns : ∀ p ∈ infixSigns,
    p.1.binaryPower? = some (Grammar.standard.power p.1) ∧ .lowest < Grammar.standard.power p.1 ∧
      Grammar.standard.power p.1 < .unary := by
  decide

/-- A plain expression is stronger than nothing. -/
theorem Expr.Plain.lowest_lt_strength {x : Expr} (h : x.Plain) : .lowest < x.strength := by
  cases h with
  | infixOp ht => exact (power_of_mem_infixSigns _ ht).2.1
  | prefixOp => exact (by decide : Power.lowest < .unary)
  | _ => exact (by decide : Power.lowest < .call)

namespace Place

/-- An expression of the given strength may stand in the place without parentheses. -/
def Fits (s : Power) : Place → Prop
  | operand => Power.Admits .unary s
  | left power => power ≤ s
  | right power => power.Admits s
  | callee => s = .call
  | argument => Power.Admits .lowest s

/-- The operator beside an operand is weaker than a prefix operator. -/
def BelowUnary : Place → Prop
  | left power | right power => power < .unary
  | _ => True

/-- What is closed in itself fits everywhere. -/
theorem fits_call {place : Place} (h : place.BelowUnary) : place.Fits .call := by
  have hcall : Power.unary < .call := by decide
  cases place with
  | operand | argument => exact .inl (by decide)
  | left power => exact Nat.le_of_lt (Nat.lt_trans h hcall)
  | right power => exact .inl (Nat.lt_trans h hcall)
  | callee => rfl

/-- An expression that is not an infix one is at least as strong as a prefix operator. -/
theorem unary_le_strength {x : Expr} (h : x.infixPower? = none) : .unary ≤ x.strength := by
  cases x with
  | infixOp => exact absurd h (by simp [Expr.infixPower?])
  | prefixOp => exact Nat.le_refl _
  | _ => exact (by decide : Power.unary ≤ .call)

theorem strength_of_infixPower? {x : Expr} {power : Power} (h : x.infixPower? = some power) :
    x.strength = power := by
  cases x with
  | infixOp => exact Option.some.inj h
  | _ => exact absurd h (by simp [Expr.infixPower?])

/-- **Where no parentheses are needed, an expression fits.** -/
theorem fits_of_encloses {place : Place} {x : Expr} (hplace : place.BelowUnary) (hx : x.Plain)
    (h : place.encloses x = false) : place.Fits x.strength := by
  cases place with
  | operand =>
    have hnone : x.infixPower? = none := by simpa [encloses] using h
    rcases Nat.lt_or_eq_of_le (unary_le_strength hnone) with hlt | heq
    · exact .inl hlt
    · exact .inr ⟨rfl, (Power.rank_inj.1 heq).symm⟩
  | left power =>
    cases hpower : x.infixPower? with
    | none => exact Nat.le_trans (Nat.le_of_lt hplace) (unary_le_strength hpower)
    | some p =>
      rw [encloses, hpower] at h
      have hnot : ¬ p < power := by simpa using h
      rw [Fits, strength_of_infixPower? hpower]
      exact Nat.le_of_not_lt hnot
  | right power =>
    cases hpower : x.infixPower? with
    | none => exact .inl (Nat.lt_of_lt_of_le hplace (unary_le_strength hpower))
    | some p =>
      rw [encloses, hpower] at h
      have hnot : ¬ p ≤ power := by simpa using h
      rw [Fits, strength_of_infixPower? hpower]
      exact .inl (Nat.lt_of_not_le hnot)
  | callee =>
    cases x with
    | infixOp | prefixOp => exact absurd h (by simp [encloses, Expr.infixPower?, Expr.isPrefix])
    | _ => rfl
  | argument => exact .inl hx.lowest_lt_strength

end Place

/-! ### Sparing texts are derived -/

/-- **Tokens that say this are derived** as an expression that is alike. -/
def Expr.ReadFrom (x : Expr) (contents : List (Kind × String)) (s : Power) (level : Nat) : Prop :=
  ∀ ts : List Token, ts.map Token.content = contents →
    ∃ y n, Derives (.part y s) ts n ∧ y.alike x = true ∧ n + 1 = level

/-- In its place, with parentheses where they are needed, an expression is derived and fits. -/
theorem Expr.ReadFrom.enclosed {x : Expr} (place : Place) (hplace : place.BelowUnary) (hx : x.Plain)
    (h : x.ReadFrom x.sparing x.strength x.sparingLevel) :
    ∃ s, place.Fits s ∧ x.ReadFrom (enclosed (place.encloses x) x.sparing) s
      ((place.encloses x).toNat + x.sparingLevel) := by
  cases hneeded : place.encloses x with
  | false =>
    refine ⟨x.strength, place.fits_of_encloses hplace hx hneeded, ?_⟩
    rwa [Bool.toNat_false, Nat.zero_add]
  | true =>
    refine ⟨.call, place.fits_call hplace, fun ts hts => ?_⟩
    obtain ⟨o, us, rfl, ho, hus⟩ := List.map_eq_cons_iff.1 hts
    obtain ⟨vs, cs, rfl, hvs, hcs⟩ := List.map_eq_append_iff.1 hus
    obtain ⟨c, rfl, hc⟩ := List.map_eq_singleton_iff.1 hcs
    obtain ⟨y, n, hy, halike, hlevel⟩ := h vs hvs
    have hwhole : Derives (.expr .lowest y) vs (n + 1) := .expr hy (.inl hx.lowest_lt_strength)
    refine ⟨y, n + 1, .grouping (Prod.mk.inj ho).1 hwhole (Prod.mk.inj hc).1, halike, ?_⟩
    rw [Bool.toNat_true, hlevel, Nat.add_comm]

/-- The arguments behind the first one. -/
theorem Expr.derives_sparingFurther {xs : List Expr} (hplain : ∀ x ∈ xs, x.Plain)
    (hxs : ∀ x ∈ xs, x.ReadFrom x.sparing x.strength x.sparingLevel) {ts : List Token}
    (hts : ts.map Token.content = sparingFurther xs) :
    ∃ ys, Derives (.furtherArguments ys) ts (sparingLevelAll xs) ∧ allAlike ys xs = true := by
  induction xs generalizing ts with
  | nil =>
    obtain rfl : ts = [] := List.map_eq_nil_iff.1 hts
    exact ⟨[], .lastArgument, rfl⟩
  | cons x xs ih =>
    obtain ⟨hplain, hrestPlain⟩ := List.forall_mem_cons.1 hplain
    obtain ⟨hx, hrest⟩ := List.forall_mem_cons.1 hxs
    obtain ⟨c, us, rfl, hc, hus⟩ := List.map_eq_cons_iff.1 hts
    obtain ⟨as, bs, rfl, has, hbs⟩ := List.map_eq_append_iff.1 hus
    obtain ⟨s, hs, hread⟩ := hx.enclosed .argument trivial hplain
    obtain ⟨y, n, hy, halike, hlevel⟩ := hread as has
    obtain ⟨ys, hys, hall⟩ := ih hrestPlain hrest hbs
    refine ⟨y :: ys, ?_, by simp [allAlike, halike, hall]⟩
    rw [sparingLevelAll, ← hlevel]
    exact .furtherArgument (Prod.mk.inj hc).1 (.expr hy hs) hys

theorem Expr.derives_sparingArguments {xs : List Expr} (hplain : ∀ x ∈ xs, x.Plain)
    (hxs : ∀ x ∈ xs, x.ReadFrom x.sparing x.strength x.sparingLevel) {ts : List Token}
    (hts : ts.map Token.content = sparingArguments xs) :
    ∃ ys, Derives (.arguments ys) ts (sparingLevelAll xs) ∧ allAlike ys xs = true := by
  cases xs with
  | nil =>
    obtain rfl : ts = [] := List.map_eq_nil_iff.1 hts
    exact ⟨[], .noArguments, rfl⟩
  | cons x xs =>
    obtain ⟨hplain, hrestPlain⟩ := List.forall_mem_cons.1 hplain
    obtain ⟨hx, hrest⟩ := List.forall_mem_cons.1 hxs
    obtain ⟨as, bs, rfl, has, hbs⟩ := List.map_eq_append_iff.1 hts
    obtain ⟨s, hs, hread⟩ := hx.enclosed .argument trivial hplain
    obtain ⟨y, n, hy, halike, hlevel⟩ := hread as has
    obtain ⟨ys, hys, hall⟩ := derives_sparingFurther hrestPlain hrest hbs
    refine ⟨y :: ys, ?_, by simp [allAlike, halike, hall]⟩
    rw [sparingLevelAll, ← hlevel]
    exact .arguments (.expr hy hs) hys

/-- **Tokens that say the sparing text of a plain expression are derived as this expression**, with the
levels that were counted. -/
theorem Expr.Plain.readFrom {x : Expr} (h : x.Plain) :
    x.ReadFrom x.sparing x.strength x.sparingLevel := by
  induction h with
  | identifier hi =>
    intro ts hts
    obtain ⟨u, rfl, hu⟩ := List.map_eq_singleton_iff.1 hts
    obtain ⟨hkind, htext⟩ := Prod.mk.inj hu
    refine ⟨_, 0, .identifier (hkind.trans hi.kind_eq), ?_, rfl⟩
    simp [alike, Identifier.alike, Token.alike_iff_content.2 hu, htext, hi.text_eq]
  | integer ht hvalue =>
    intro ts hts
    obtain ⟨u, rfl, hu⟩ := List.map_eq_singleton_iff.1 hts
    obtain ⟨hkind, htext⟩ := Prod.mk.inj hu
    refine ⟨_, 0, .integer (hkind.trans ht) (by rw [htext, hvalue]), ?_, rfl⟩
    simp [alike, Token.alike_iff_content.2 hu]
  | @boolean t value ht =>
    intro ts hts
    obtain ⟨u, rfl, hu⟩ := List.map_eq_singleton_iff.1 hts
    have hkind : u.kind = t.kind := (Prod.mk.inj hu).1
    cases value with
    | true =>
      refine ⟨_, 0, .boolean (.inl (hkind.trans ht.1)), ?_, rfl⟩
      simp [alike, Token.alike_iff_content.2 hu, hkind, ht.1]
    | false =>
      refine ⟨_, 0, .boolean (.inr (hkind.trans ht.1)), ?_, rfl⟩
      simp [alike, Token.alike_iff_content.2 hu, hkind, ht.1]
  | @prefixOp t x ht hx ih =>
    intro ts hts
    obtain ⟨u, us, rfl, hu, hus⟩ := List.map_eq_cons_iff.1 hts
    obtain ⟨hkind, htext⟩ := Prod.mk.inj hu
    obtain ⟨s, hs, hread⟩ := ih.enclosed .operand trivial hx
    obtain ⟨y, n, hy, halike, hlevel⟩ := hread us hus
    have hsign : u.kind = .bang ∨ u.kind = .minus := by
      have hall : ∀ p ∈ prefixSigns, p.1 = .bang ∨ p.1 = .minus := by decide
      exact hkind ▸ hall _ ht
    refine ⟨_, n + 1, .prefixOp hsign (.expr hy hs), ?_, ?_⟩
    · simp [alike, alike?, Token.alike_iff_content.2 hu, htext, halike]
    · rw [sparingLevel, sparingLevel?, ← hlevel, Nat.add_comm]
  | @infixOp t l r ht hl hr ihl ihr =>
    intro ts hts
    obtain ⟨hpower, -, hunary⟩ := power_of_mem_infixSigns _ ht
    obtain ⟨ls, us, rfl, hls, hus⟩ := List.map_eq_append_iff.1 hts
    obtain ⟨u, rs, rfl, hu, hrs⟩ := List.map_eq_cons_iff.1 hus
    obtain ⟨hkind, htext⟩ := Prod.mk.inj hu
    obtain ⟨s, hs, hleft⟩ := ihl.enclosed (.left _) hunary hl
    obtain ⟨y, m, hy, hyl, hm⟩ := hleft ls hls
    obtain ⟨s', hs', hright⟩ := ihr.enclosed (.right _) hunary hr
    obtain ⟨z, n, hz, hzr, hn⟩ := hright rs hrs
    refine ⟨_, max m (n + 1), .infixOp hy (by rw [hkind]; exact hpower) hs (.expr hz hs'), ?_, ?_⟩
    · simp [alike, alike?, Token.alike_iff_content.2 hu, htext, hyl, hzr]
    · rw [sparingLevel, sparingLevel?, ← hm, ← hn]
      omega
  | @call t f xs ht hf hxs ihf ihxs =>
    intro ts hts
    obtain ⟨fs, us, rfl, hfs, hus⟩ := List.map_eq_append_iff.1 hts
    obtain ⟨u, vs, rfl, hu, hvs⟩ := List.map_eq_cons_iff.1 hus
    obtain ⟨as, cs, rfl, has, hcs⟩ := List.map_eq_append_iff.1 hvs
    obtain ⟨c, rfl, hc⟩ := List.map_eq_singleton_iff.1 hcs
    obtain ⟨s, rfl, hcallee⟩ := ihf.enclosed .callee trivial hf
    obtain ⟨y, m, hy, hyf, hm⟩ := hcallee fs hfs
    obtain ⟨ys, hys, hall⟩ := derives_sparingArguments hxs ihxs has
    refine ⟨_, _, .call hy ((Prod.mk.inj hu).1.trans ht.1) hys (Prod.mk.inj hc).1, ?_, ?_⟩
    · simp [alike, Token.alike_iff_content.2 hu, hyf, hall]
    · rw [sparingLevel, ← hm]
      omega

end MonkeySyntax
