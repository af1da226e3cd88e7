import MonkeySyntax.Proofs.Grammar.Acceptance
import MonkeySyntax.Proofs.Merging
import MonkeySyntax.Proofs.Tree.Derived
import MonkeySyntax.Proofs.Tree.Sparing

/-! # Operators bind as their powers say

An expression without blocks that is written down with parentheses only where they are needed is read
back as the same expression, whatever blanks stand between its tokens.

* `Framed` — tokens that begin and end as an expression does and of which no two merge.
* `Expr.Plain.framed`, `Expr.Plain.writtenAs` — the sparing text of a plain expression is framed, and
  each of its tokens can be written.
* `map_content_tokenize_written` — written tokens of which no two merge are cut apart again.
* **`sparing_readsBack`** — the sparing text of a plain expression is read as this expression. -/

namespace MonkeySyntax

/-! ### Tokens that touch each other -/

/-- A sign is no word and no number. -/
def Kind.IsSign (k : Kind) : Prop :=
  ¬ k.IsWord ∧ k ≠ .integer

instance (k : Kind) : Decidable k.IsSign := inferInstanceAs (Decidable (_ ∧ _))

/-- A sign does not merge with what starts an expression. -/
theorem Kind.IsSign.not_merges {k l : Kind} (hk : k.IsSign) (hl : l.StartsExpr) : ¬ k.Merges l := by
  rintro (⟨hword, -⟩ | ⟨hinteger, -⟩ | ⟨-, rfl | rfl⟩)
  · exact hk.1 hword
  · exact hk.2 hinteger
  · exact absurd hl (by decide)
  · exact absurd hl (by decide)

/-- What ends an expression does not merge with a sign. -/
theorem Kind.EndsExpr.not_merges {k l : Kind} (hk : k.EndsExpr) (hl : l.IsSign) : ¬ k.Merges l := by
  rintro (⟨-, hword⟩ | ⟨-, hinteger⟩ | ⟨rfl | rfl, -⟩)
  · exact hl.1 hword
  · exact hl.2 hinteger
  · exact absurd hk (by decide)
  · exact absurd hk (by decide)

/-- No two of the tokens that touch each other merge. -/
def Apart (contents : List (Kind × String)) : Prop :=
  contents.IsChain fun a b => ¬ a.1.Merges b.1

/-- **Tokens that begin and end as an expression does** and of which no two merge. -/
structure Framed (contents : List (Kind × String)) : Prop where
  /-- The first of them starts an expression. -/
  begins : ∃ a as, contents = a :: as ∧ a.1.StartsExpr
  /-- The last of them ends an expression. -/
  ends : ∃ as a, contents = as ++ [a] ∧ a.1.EndsExpr
  /-- No two of them merge. -/
  apart : Apart contents

namespace Framed

variable {as bs rest : List (Kind × String)} {sign : Kind × String}

/-- A name, a number or a truth value. -/
theorem singleton {a : Kind × String} (h : a.1 ∈ [Kind.identifier, .integer, .kwTrue, .kwFalse]) :
    Framed [a] := by
  have hall : ∀ k ∈ [Kind.identifier, .integer, .kwTrue, .kwFalse], k.StartsExpr ∧ k.EndsExpr := by
    decide
  obtain ⟨hstarts, hends⟩ := hall _ h
  exact ⟨⟨a, [], rfl, hstarts⟩, ⟨[], a, rfl, hends⟩, .singleton a⟩

/-- A sign before an expression. -/
theorem cons_apart (h : Framed as) (hsign : sign.1.IsSign) (hrest : Apart (as ++ rest)) :
    Apart (sign :: (as ++ rest)) := by
  obtain ⟨a, as, rfl, ha⟩ := h.begins
  exact .cons_cons (hsign.not_merges ha) hrest

/-- A sign behind an expression. -/
theorem append_apart (h : Framed as) (hsign : sign.1.IsSign) (hrest : Apart (sign :: rest)) :
    Apart (as ++ sign :: rest) := by
  refine List.isChain_append.2 ⟨h.apart, hrest, fun a ha b hb => ?_⟩
  obtain ⟨as, c, rfl, hc⟩ := h.ends
  obtain rfl : c = a := by simpa using ha
  obtain rfl : sign = b := by simpa using hb
  exact hc.not_merges hsign

/-- A sign before an expression, as an expression. -/
theorem cons (h : Framed as) (hsign : sign.1.IsSign) (hstarts : sign.1.StartsExpr) :
    Framed (sign :: as) where
  begins := ⟨sign, as, rfl, hstarts⟩
  ends := by
    obtain ⟨as, a, rfl, ha⟩ := h.ends
    exact ⟨sign :: as, a, rfl, ha⟩
  apart := by
    have hapart : Apart (sign :: (as ++ [])) := h.cons_apart hsign (by simpa using h.apart)
    rwa [List.append_nil] at hapart

/-- Two expressions with a sign between them. -/
theorem append (ha : Framed as) (hsign : sign.1.IsSign) (hb : Framed bs) :
    Framed (as ++ sign :: bs) where
  begins := by
    obtain ⟨a, as, rfl, hstarts⟩ := ha.begins
    exact ⟨a, _, rfl, hstarts⟩
  ends := by
    obtain ⟨bs, b, rfl, hends⟩ := hb.ends
    exact ⟨as ++ sign :: bs, b, by simp, hends⟩
  apart := by
    refine ha.append_apart hsign ?_
    have hapart : Apart (sign :: (bs ++ [])) := hb.cons_apart hsign (by simpa using hb.apart)
    rwa [List.append_nil] at hapart

/-- An expression, with parentheses or without. -/
theorem enclosed (h : Framed as) (needed : Bool) : Framed (enclosed needed as) := by
  cases needed with
  | false => exact h
  | true =>
    have hclose : Apart (as ++ [(.closeParen, ")")]) :=
      h.append_apart (by decide) (.singleton _)
    exact
      { begins := ⟨_, _, rfl, by decide⟩
        ends := ⟨(.openParen, "(") :: as, _, rfl, by decide⟩
        apart := h.cons_apart (by decide) hclose }

end Framed

/-- The arguments behind the first one, with an expression before them and the parenthesis behind. -/
theorem Expr.apart_sparingFurther {xs : List Expr} (hxs : ∀ x ∈ xs, Framed x.sparing)
    {as : List (Kind × String)} (has : Framed as) :
    Apart (as ++ (sparingFurther xs ++ [(.closeParen, ")")])) := by
  induction xs generalizing as with
  | nil => exact has.append_apart (by decide) (.singleton _)
  | cons x xs ih =>
    obtain ⟨hx, hxs⟩ := List.forall_mem_cons.1 hxs
    rw [sparingFurther, List.cons_append, List.append_assoc]
    refine has.append_apart (by decide) ?_
    exact (hx.enclosed _).cons_apart (by decide) (ih hxs (hx.enclosed _))

/-- The arguments of a call in their parentheses. -/
theorem Expr.apart_sparingArguments {xs : List Expr} (hxs : ∀ x ∈ xs, Framed x.sparing)
    {sign : Kind × String} (hsign : sign.1 = .openParen) :
    Apart (sign :: (sparingArguments xs ++ [(.closeParen, ")")])) := by
  cases xs with
  | nil => exact .cons_cons (by rw [hsign]; decide) (.singleton _)
  | cons x xs =>
    obtain ⟨hx, hxs⟩ := List.forall_mem_cons.1 hxs
    rw [sparingArguments, List.append_assoc]
    exact (hx.enclosed _).cons_apart (by rw [hsign]; decide)
      (apart_sparingFurther hxs (hx.enclosed _))

/-- **No two tokens of a sparing text merge**, wherever they touch each other. -/
theorem Expr.Plain.framed {x : Expr} (h : x.Plain) : Framed x.sparing := by
  have hbefore : ∀ p ∈ prefixSigns, p.1.IsSign ∧ p.1.StartsExpr := by decide
  have hbetween : ∀ p ∈ infixSigns, p.1.IsSign := by decide
  induction h with
  | identifier hi => exact .singleton (by simp [Token.content, hi.kind_eq])
  | integer ht => exact .singleton (by simp [Token.content, ht])
  | @boolean t value ht =>
    cases value with
    | true => exact .singleton (by simp [Token.content, ht.1])
    | false => exact .singleton (by simp [Token.content, ht.1])
  | @prefixOp t x ht _ ih =>
    obtain ⟨hsign, hstarts⟩ := hbefore _ ht
    exact (ih.enclosed _).cons hsign hstarts
  | @infixOp t l r ht _ _ ihl ihr => exact (ihl.enclosed _).append (hbetween _ ht) (ihr.enclosed _)
  | @call t f xs ht _ _ ihf ihxs =>
    have hcallee := ihf.enclosed (Place.callee.encloses f)
    exact
      { begins := by
          obtain ⟨a, as, has, ha⟩ := hcallee.begins
          exact ⟨a, _, by rw [sparing, has]; rfl, ha⟩
        ends := ⟨_, (.closeParen, ")"), by rw [sparing, ← List.cons_append, ← List.append_assoc], by
          decide⟩
        apart := hcallee.append_apart (show t.kind.IsSign by rw [ht.1]; decide)
          (apart_sparingArguments ihxs ht.1) }

/-! ### What can be written -/

/-- The sign of such a kind is how it is written. -/
theorem writtenAs_of_mem_signs {k : Kind} {sign : String}
    (h : (k, sign) ∈ prefixSigns ++ infixSigns ++ [(.openParen, "("), (.closeParen, ")"), (.comma, ",")]) :
    k.WrittenAs sign.toList := by
  have hall : ∀ p ∈ prefixSigns ++ infixSigns ++
      [(Kind.openParen, "("), (.closeParen, ")"), (.comma, ",")],
      p.1.IsFixed ∧ p.2 = p.1.spelling := by decide
  obtain ⟨hfixed, hspelling⟩ := hall _ h
  exact (Kind.writtenAs_of_isFixed hfixed _).2 (congrArg String.toList hspelling)

theorem forall_mem_enclosed {P : Kind × String → Prop} (hopen : P (.openParen, "("))
    (hclose : P (.closeParen, ")")) {as : List (Kind × String)} (has : ∀ a ∈ as, P a) (needed : Bool) :
    ∀ a ∈ enclosed needed as, P a := by
  cases needed with
  | false => exact has
  | true => simpa [enclosed, or_imp, forall_and, hopen, hclose] using has

/-- What holds of the parentheses, of the comma and of the tokens of each argument holds of the tokens of
all arguments. -/
theorem Expr.forall_mem_sparingArguments {P : Kind × String → Prop} (hopen : P (.openParen, "("))
    (hclose : P (.closeParen, ")")) (hcomma : P (.comma, ",")) {xs : List Expr}
    (hxs : ∀ x ∈ xs, ∀ a ∈ x.sparing, P a) : ∀ a ∈ sparingArguments xs, P a := by
  have hfurther (xs : List Expr) (hxs : ∀ x ∈ xs, ∀ a ∈ x.sparing, P a) :
      ∀ a ∈ sparingFurther xs, P a := by
    induction xs with
    | nil => exact List.forall_mem_nil _
    | cons x xs ih =>
      obtain ⟨hx, hxs⟩ := List.forall_mem_cons.1 hxs
      exact List.forall_mem_cons.2 ⟨hcomma,
        List.forall_mem_append.2 ⟨forall_mem_enclosed hopen hclose hx _, ih hxs⟩⟩
  cases xs with
  | nil => exact List.forall_mem_nil _
  | cons x xs =>
    obtain ⟨hx, hxs⟩ := List.forall_mem_cons.1 hxs
    exact List.forall_mem_append.2 ⟨forall_mem_enclosed hopen hclose hx _, hfurther xs hxs⟩

/-- **Each token of a sparing text can be written.** -/
theorem Expr.Plain.writtenAs {x : Expr} (h : x.Plain) :
    ∀ a ∈ x.sparing, a.1.WrittenAs a.2.toList := by
  have hopen : Kind.openParen.WrittenAs "(".toList := writtenAs_of_mem_signs (by decide)
  have hclose : Kind.closeParen.WrittenAs ")".toList := writtenAs_of_mem_signs (by decide)
  have hcomma : Kind.comma.WrittenAs ",".toList := writtenAs_of_mem_signs (by decide)
  induction h with
  | @identifier i hi =>
    refine List.forall_mem_singleton.2 ?_
    obtain ⟨c, cs, hcs, -⟩ := hi.exists_cons
    rw [Token.content, hi.kind_eq, hi.text_eq]
    refine ⟨by rw [hcs]; exact List.cons_ne_nil c cs, hi.isWordChar, fun p hp heq => ?_⟩
    exact hi.not_keyword (List.mem_map.2 ⟨p, hp, (String.toList_inj.1 heq).symm⟩)
  | @integer t value ht hvalue =>
    refine List.forall_mem_singleton.2 ?_
    obtain ⟨⟨c, cs, hcs⟩, hdigits⟩ := exists_cons_of_integerValue? hvalue
    rw [Token.content, ht]
    exact ⟨by rw [hcs]; exact List.cons_ne_nil c cs, hdigits⟩
  | @boolean t value ht =>
    refine List.forall_mem_singleton.2 ?_
    cases value with
    | true => rw [Token.content, ht.1, ht.2]; rfl
    | false => rw [Token.content, ht.1, ht.2]; rfl
  | @prefixOp t x ht _ ih =>
    exact List.forall_mem_cons.2 ⟨writtenAs_of_mem_signs (by simp [ht, Token.content]),
      forall_mem_enclosed hopen hclose ih _⟩
  | @infixOp t l r ht _ _ ihl ihr =>
    exact List.forall_mem_append.2 ⟨forall_mem_enclosed hopen hclose ihl _, List.forall_mem_cons.2
      ⟨writtenAs_of_mem_signs (by simp [ht, Token.content]), forall_mem_enclosed hopen hclose ihr _⟩⟩
  | @call t f xs ht _ _ ihf ihxs =>
    have harguments := Expr.forall_mem_sparingArguments hopen hclose hcomma ihxs
    refine List.forall_mem_append.2 ⟨forall_mem_enclosed hopen hclose ihf _, List.forall_mem_cons.2
      ⟨?_, List.forall_mem_append.2 ⟨harguments, List.forall_mem_singleton.2 hclose⟩⟩⟩
    rw [Token.content, ht.1, ht.2]
    exact hopen

/-- Tokens that can be written may be written without any blanks. -/
theorem exists_written {contents : List (Kind × String)}
    (h : ∀ a ∈ contents, a.1.WrittenAs a.2.toList) :
    ∃ ws : List Written, ws.map Written.content = contents := by
  induction contents with
  | nil => exact ⟨[], rfl⟩
  | cons a contents ih =>
    obtain ⟨ha, hrest⟩ := List.forall_mem_cons.1 h
    obtain ⟨ws, rfl⟩ := ih hrest
    exact ⟨⟨⟨[], by simp⟩, a.1, a.2.toList, ha⟩ :: ws, by simp [Written.content]⟩

/-- **Written tokens of which no two merge are cut apart again**, whatever blanks stand between them. -/
theorem map_content_tokenize_written (file : String) (after : Blanks) {ws : List Written}
    (h : Apart (ws.map Written.content)) :
    (tokenize (String.ofList (Written.text after ws)) file).dropLast.map Token.content =
      ws.map Written.content := by
  suffices hall : ∀ offset, (tokensFrom file offset (Written.text after ws)).map Token.content =
      ws.map Written.content ++ [(.eof, "")] by
    rw [tokenize, String.toList_ofList, List.map_dropLast, hall, List.dropLast_concat]
  induction ws with
  | nil =>
    intro offset
    have hnone := tokensFrom_blanks after.blank file offset []
    rw [List.append_nil, tokensFrom_nil] at hnone
    simp [Written.text, hnone, Token.content, Token.endOf]
  | cons w ws ih =>
    intro offset
    rw [Apart, List.map_cons, List.isChain_cons] at h
    obtain ⟨hfirst, hrest⟩ := h
    rw [Written.text, List.map_cons, List.cons_append, map_content_tokensFrom_iff, joins_text_iff]
    refine ⟨fun v hv _ => hfirst v.content ?_, ih hrest _⟩
    rw [List.head?_map, hv, Option.map_some, Option.mem_some_iff]

/-- **Operators bind as their powers say.** The sparing text of a plain expression has parentheses only
where they are needed to keep its parts together: around the left operand of an infix operator if this
is an infix expression with a lower power, around the right operand if it is one with a lower power or
the same, around the operand of a prefix operator if it is an infix expression, and around a callee if
it is an infix or a prefix expression. The tokens of the text can be written down, and if they are
nested to no more than 256 levels, then they are read as one expression statement with this very
expression, without any diagnostic and whatever blanks stand before, between and behind them. -/
theorem sparing_readsBack {x : Expr} (hx : x.Plain) (hlevel : x.sparingLevel ≤ 256) :
    (∃ ws : List Written, ws.map Written.content = x.sparing) ∧
      ∀ (file : String) (after : Blanks) (ws : List Written),
        ws.map Written.content = x.sparing →
          (parseAs file (String.ofList (Written.text after ws))).diagnostics = [] ∧
            ∃ y, (parseAs file (String.ofList (Written.text after ws))).program =
              ⟨[.expression y]⟩ ∧ y.alike x = true := by
  refine ⟨exists_written hx.writtenAs, fun file after ws hws => ?_⟩
  have htokens := map_content_tokenize_written file after (hws ▸ hx.framed.apart)
  obtain ⟨y, n, hy, halike, hn⟩ := hx.readFrom _ (htokens.trans hws)
  obtain ⟨hnone, hread⟩ := parseAs_of_derives (.expr hy (.inl hx.lowest_lt_strength))
    (hn.trans_le hlevel)
  exact ⟨hnone, y, hread, halike⟩

/-- A negation times a sum: the sum needs its parentheses and the negation none. -/
theorem sparing_readsBack_product :
    let token (kind : Kind) (text : Char) := Token.ofText "" 0 kind [text]
    let name (c : Char) := Expr.identifier (.ofToken (token .identifier c))
    let negation := Expr.prefixOp (token .minus '-') "-" (some (name 'a'))
    let sum := Expr.infixOp (token .plus '+') "+" (name 'b') (some (name 'c'))
    let x := Expr.infixOp (token .star '*') "*" negation (some sum)
    x.Plain ∧ x.sparingLevel = 4 ∧ (parseAs "" "-a * (b + c)").diagnostics = [] ∧
      ∃ y, (parseAs "" "-a * (b + c)").program = ⟨[.expression y]⟩ ∧ y.alike x = true := by
  intro token name negation sum x
  have hletter (c : Char) (hc : c ∈ ['a', 'b', 'c']) : isWordChar c = true := by
    revert c
    exact List.all_eq_true.1 (by decide)
  have hword (c : Char) (hc : c ∈ ['a', 'b', 'c']) : Kind.identifier.WrittenAs [c] := by
    refine ⟨List.cons_ne_nil c [], by simpa using hletter c hc, fun p hp heq => ?_⟩
    have hlength : ∀ p ∈ keywords, 1 < p.1.toList.length := by decide
    exact absurd (hlength p hp) (by simp [← heq])
  have hname (c : Char) (hc : c ∈ ['a', 'b', 'c']) : (name c).Plain := by
    refine .identifier (Identifier.wellFormed_ofToken ?_ rfl)
    have hspelt : Kind.identifier.Spelt (String.ofList [c]).toList := by
      rw [String.toList_ofList]
      exact Kind.writtenAs_iff_spelt.1 (hword c hc)
    exact hspelt
  have hx : x.Plain := .infixOp (by decide) (.prefixOp (by decide) (hname 'a' (by simp)))
    (.infixOp (by decide) (hname 'b' (by simp)) (hname 'c' (by simp)))
  have hlevel : x.sparingLevel = 4 := by decide
  let none : Blanks := ⟨[], by simp⟩
  let blank : Blanks := ⟨[' '], List.all_eq_true.1 (by decide)⟩
  let ws : List Written := [⟨none, .minus, ['-'], rfl⟩, ⟨none, .identifier, ['a'], hword _ (by simp)⟩,
    ⟨blank, .star, ['*'], rfl⟩, ⟨blank, .openParen, ['('], rfl⟩,
    ⟨none, .identifier, ['b'], hword _ (by simp)⟩, ⟨blank, .plus, ['+'], rfl⟩,
    ⟨blank, .identifier, ['c'], hword _ (by simp)⟩, ⟨none, .closeParen, [')'], rfl⟩]
  have hws : ws.map Written.content = x.sparing := rfl
  exact ⟨hx, hlevel, (sparing_readsBack hx (hlevel.trans_le (by decide))).2 "" none ws hws⟩

end MonkeySyntax
