import MonkeySyntax.Proofs.Grammar.Completeness

/-! # What is read the grammar derives

Whatever a clean run reads, the tokens it has passed over are derived by the grammar as the tree that
it gives. What comes next then never continues an expression that has been read.

* **`Parsing.Sound expr`** — the statement above for whole expressions.
* `sound_continueExpr` — an expression grows to the right, and the operator that comes next never
  binds tighter than the outermost one so far.
* **`sound_exprWithin`**, **`sound_block`**, **`sound_statement`** — the parts of a program, by induction
  on the levels that are left. -/

namespace MonkeySyntax

open Parsing ParseM

namespace Parser

variable {p : Parser} {bp : Power}

/-- Where no operator is ahead, what comes next binds no tighter. -/
theorem power_peek_le (hp : p.Standard) (h : p.operatorAhead? bp = none) :
    Grammar.standard.power p.peek.kind ≤ bp := by
  rw [operatorAhead?, hp.operator?_eq] at h
  cases hk : p.peek.kind <;> rw [hk] at h <;>
    simp_all [Grammar.standardOperator?, Grammar.power, Grammar.standard, Power.le_iff, Power.lt_iff,
      Power.rank]

/-- An operator ahead is a sign between two operands or the opening parenthesis of a call. -/
theorem operatorAhead?_eq_some (hp : p.Standard) {op : Operator}
    (h : p.operatorAhead? bp = some op) :
    bp < op.power ∧ op.power = Grammar.standard.power p.peek.kind ∧
      (op.rule = .binary ∧ p.peek.kind.binaryPower? = some op.power ∨
        op.rule = .call ∧ p.peek.kind = .openParen ∧ op.power = .call) := by
  rw [operatorAhead?, hp.operator?_eq, Option.filter_eq_some_iff, decide_eq_true_iff] at h
  obtain ⟨hop, -, hlt⟩ := h
  refine ⟨hlt, ?_⟩
  generalize p.peek.kind = k at hop
  cases k <;> simp [Grammar.standardOperator?] at hop <;> subst hop <;>
    exact ⟨rfl, by simp [Kind.binaryPower?]⟩

/-- A token of the source heads what is left behind those that lead up to it. -/
theorem advance_rest_of_peek (hp : p.Standard) {k : Kind} (h : p.peek.kind = k) (hk : k ≠ .eof) :
    p.advance.rest = p.peek :: p.advance.advance.rest :=
  advance_rest_eq_cons hp (by rwa [h])

end Parser

namespace Parsing

/-- **What `expr` reads is derived**, and what comes next does not continue it. -/
def Sound (expr : Power → ParseM Expr) : Prop :=
  ∀ {bp p x q}, bp < .call → p.Standard → Reads (expr bp) p x q →
    ∃ ts n, Derives (.expr bp x) ts n ∧ p.rest = ts ++ q.advance.rest ∧
      Grammar.standard.power q.peek.kind ≤ bp

section Rules

variable {expr : Power → ParseM Expr} (hexpr : ∀ power, Candid Given (expr power))
  (hsound : Sound expr) {p q r : Parser}
include hexpr hsound

/-! ### Statements and blocks -/

omit hexpr hsound in
/-- Semicolons that were passed over. -/
theorem sound_skipSemicolons (hp : p.Standard) (h : Reads skipSemicolons p () q) :
    ∃ us, (∀ u ∈ us, u.kind = .semicolon) ∧ p.advance.rest = us ++ q.advance.rest ∧
      (us = [] → q = p) := by
  rw [skipSemicolons, reads_bind_pure
    ((keeps_advance Parser.stepRelation_later).collectWhile Parser.stepRelation_later)] at h
  obtain ⟨vs, hvs, -⟩ := h
  refine Reads.collectWhile_induction (motive := fun p _ q => ∃ us, (∀ u ∈ us, u.kind = .semicolon) ∧
    p.advance.rest = us ++ q.advance.rest ∧ (us = [] → q = p))
    (keeps_advance Parser.stepRelation_later) consuming_semicolon ?_ ?_ hp hvs
  · exact fun p _ => ⟨[], by simp, rfl, fun _ => rfl⟩
  · rintro p a r as q hp hc ha ⟨us, hus, hrest, -⟩
    have hpeek : p.peek.kind = .semicolon := by simpa [peekIs] using hc
    obtain rfl : p.advance = r := congrArg Prod.snd ha.1
    refine ⟨p.peek :: us, List.forall_mem_cons.2 ⟨hpeek, hus⟩, ?_, by simp⟩
    rw [Parser.advance_rest_of_peek hp hpeek (by decide), hrest, List.cons_append]

/-- The value of a binding or a return with the semicolons behind it. -/
theorem sound_value {x : Expr} (hp : p.Standard) (hx : Reads (expr .lowest) p x r)
    (hr : Reads skipSemicolons r () q) :
    ∃ ts us n, Derives (.expr .lowest x) ts n ∧ (∀ u ∈ us, u.kind = .semicolon) ∧
      p.rest = (ts ++ us) ++ q.advance.rest ∧
      ((ts ++ us).getLast?.map Token.kind = some .semicolon ∨
        Grammar.standard.power q.peek.kind ≤ .lowest) := by
  obtain ⟨ts, n, hts, hrest, hpower⟩ := hsound (by decide) hp hx
  obtain ⟨us, hus, hrest', hsame⟩ := sound_skipSemicolons (hp.later (hx.later (hexpr _).keeps)) hr
  refine ⟨ts, us, n, hts, hus, by rw [hrest, hrest', List.append_assoc], ?_⟩
  -- without a semicolon the parser has not moved on behind the expression
  rcases List.eq_nil_or_concat us with hnil | ⟨vs, v, rfl⟩
  · rw [hsame hnil]
    exact .inr hpower
  · rw [List.concat_eq_append] at hus ⊢
    exact .inl (by simp [← List.append_assoc, hus v (by simp)])

/-- What a statement covers, and that what comes next does not continue it. -/
theorem sound_statement {s : Statement} (hp : p.Standard) (h : Reads (statement expr) p s q) :
    ∃ ts n, Derives (.statement s) ts n ∧ p.rest = ts ++ q.advance.rest ∧
      (ts.getLast?.map Token.kind = some .semicolon ∨
        Grammar.standard.power q.peek.kind ≤ .lowest) := by
  rw [reads_statement hp] at h
  cases hrule : (Grammar.standardStatementRule? p.current.kind).getD .expression with
  | binding =>
    rw [hrule] at h
    have hlet : p.current.kind = .kwLet := by
      generalize p.current.kind = k at hrule
      cases k <;> simp_all [Grammar.standardStatementRule?]
    obtain ⟨hname, hassign, x, r, hx, hr, rfl⟩ := (reads_binding hexpr).1 h
    obtain ⟨ts, us, n, hts, hus, hrest, hlast⟩ :=
      sound_value hexpr hsound hp.advance.advance.advance hx hr
    refine ⟨_, n, .binding hlet hname hassign hts hus, ?_, ?_⟩
    · rw [Parser.rest_eq_cons hp (by rw [hlet]; decide),
        Parser.advance_rest_of_peek hp hname (by decide),
        Parser.advance_rest_of_peek hp.advance hassign (by decide), hrest]
      rfl
    · refine hlast.imp_left fun hlast => ?_
      rw [List.getLast?_cons_cons, List.getLast?_cons_cons, List.getLast?_cons_of_ne_nil, hlast]
      exact List.append_ne_nil_of_left_ne_nil (ne_nil_of_begins hts.begins) us
  | returning =>
    rw [hrule] at h
    have hreturn : p.current.kind = .kwReturn := by
      generalize p.current.kind = k at hrule
      cases k <;> simp_all [Grammar.standardStatementRule?]
    obtain ⟨x, r, hx, hr, rfl⟩ := (reads_returning hexpr).1 h
    obtain ⟨ts, us, n, hts, hus, hrest, hlast⟩ := sound_value hexpr hsound hp.advance hx hr
    refine ⟨_, n, .returning hreturn hts hus, ?_, ?_⟩
    · rw [Parser.rest_eq_cons hp (by rw [hreturn]; decide), hrest]
      rfl
    · refine hlast.imp_left fun hlast => ?_
      rw [List.getLast?_cons_of_ne_nil, hlast]
      exact List.append_ne_nil_of_left_ne_nil (ne_nil_of_begins hts.begins) us
  | expression =>
    rw [hrule] at h
    obtain ⟨x, r, hx, rfl, rfl⟩ := (reads_expressionStatement hexpr).1 h
    obtain ⟨ts, n, hts, hrest, hpower⟩ := hsound (by decide) hp hx
    have hr : r.Standard := hp.later (hx.later (hexpr _).keeps)
    -- the one semicolon that may belong to the statement
    cases hpeek : peekIs .semicolon r with
    | true =>
      have hsemicolon : r.peek.kind = .semicolon := by simpa [peekIs] using hpeek
      rw [if_pos rfl]
      refine ⟨ts ++ [r.peek], n, .expression hts le_rfl (by simpa using hsemicolon), ?_, ?_⟩
      · rw [hrest, Parser.advance_rest_of_peek hr hsemicolon (by decide), List.append_assoc,
          List.singleton_append]
      · exact .inl (by simp [hsemicolon])
    | false =>
      rw [if_neg Bool.false_ne_true]
      refine ⟨ts ++ [], n, .expression hts (Nat.zero_le 1) (by simp), ?_, .inr hpower⟩
      rw [List.append_nil, hrest]

omit hexpr hsound in
/-- What comes behind a statement is separated from it. -/
theorem separated_of_power {ts us vs : List Token} (hus : r.advance.rest = us ++ vs)
    (hlast : ts.getLast?.map Token.kind = some .semicolon ∨
      Grammar.standard.power r.peek.kind ≤ .lowest) : Separated ts us := by
  refine hlast.imp_right fun hpower t ht => ?_
  obtain ⟨us, rfl⟩ : ∃ ws, us = t :: ws := by
    cases us with
    | nil => exact absurd ht (by simp)
    | cons u us => exact ⟨us, by simpa using ht⟩
  have hpeek : r.peek = t := by
    rw [← Parser.current_advance]
    exact Parser.current_of_rest hus
  -- both signs would continue an expression, so they bind tighter than the lowest power
  rw [hpeek] at hpower
  constructor <;> intro hk <;> rw [hk] at hpower <;> exact absurd hpower (by decide)

/-- The statements between the braces of a block. -/
theorem sound_blockItems {items : List (Option Statement)} (hp : p.Standard)
    (h : Reads (collectWhile (!currentIs .closeBrace ·) (blockItem expr)) p items q) :
    ∃ ss ts n, items = ss.map some ∧ Derives (.statements ss) ts n ∧ p.rest = ts ++ q.rest ∧
      q.current.kind = .closeBrace := by
  refine Reads.collectWhile_induction (motive := fun p items q => ∃ ss ts n, items = ss.map some ∧
    Derives (.statements ss) ts n ∧ p.rest = ts ++ q.rest ∧ q.current.kind = .closeBrace)
    (candid_blockItem hexpr).keeps (consuming_blockItem hexpr) ?_ ?_ hp h
  · intro p hc
    exact ⟨[], [], 0, rfl, .noStatements, rfl, by simpa [currentIs] using hc⟩
  · rintro p o r items q hp - ho ⟨ss, us, n, rfl, hss, hrest, hclose⟩
    obtain ⟨-, s, r, rfl, hs, rfl⟩ := (reads_blockItem hexpr).1 ho
    obtain ⟨ts, m, hts, hrest', hlast⟩ := sound_statement hexpr hsound hp hs
    exact ⟨s :: ss, ts ++ us, max m n, rfl, .statements hts hss (separated_of_power hrest hlast),
      by rw [hrest', hrest, List.append_assoc], hclose⟩

theorem sound_block {b : Block} (hp : p.Standard) (ho : p.current.kind = .openBrace)
    (h : Reads (block expr) p b q) :
    ∃ ts n, Derives (.block b) ts n ∧ p.rest = ts ++ q.advance.rest := by
  obtain ⟨items, hitems, rfl⟩ := (reads_block hexpr).1 h
  obtain ⟨ss, ts, n, rfl, hss, hrest, hclose⟩ := sound_blockItems hexpr hsound hp.advance hitems
  have hq : q.Standard := hp.advance.later (hitems.later (candid_blockItem hexpr).collectWhile.keeps)
  rw [filterMap_id_map_some]
  refine ⟨_, n, .block ho hss hclose, ?_⟩
  rw [Parser.rest_eq_cons hp (by rw [ho]; decide), hrest,
    Parser.rest_eq_cons hq (by rw [hclose]; decide)]
  simp

theorem sound_otherwise {b : Option Block} (hp : p.Standard) (h : Reads (otherwise expr) p b q) :
    ∃ ts n, Derives (.alternative b) ts n ∧ p.advance.rest = ts ++ q.advance.rest := by
  rw [reads_otherwise hexpr] at h
  cases hpeek : peekIs .kwElse p with
  | true =>
    rw [hpeek, if_pos rfl] at h
    obtain ⟨hbrace, c, hc, rfl⟩ := h
    have helse : p.peek.kind = .kwElse := by simpa [peekIs] using hpeek
    obtain ⟨ts, n, hts, hrest⟩ := sound_block hexpr hsound hp.advance.advance
      (by rwa [Parser.current_advance]) hc
    refine ⟨_, n, .alternative helse hts, ?_⟩
    rw [Parser.advance_rest_of_peek hp helse (by decide), hrest, List.cons_append]
  | false =>
    rw [hpeek, if_neg Bool.false_ne_true] at h
    obtain ⟨rfl, rfl⟩ := h
    exact ⟨[], 0, .noAlternative, rfl⟩

/-! ### Lists between parentheses -/

omit hexpr hsound in
theorem sound_parameters {is : List Identifier} (hp : p.Standard) (h : Reads parameters p is q) :
    ∃ ts c, Derives (.parameters is) ts 0 ∧ c.kind = .closeParen ∧
      p.advance.rest = ts ++ c :: q.advance.rest := by
  rw [reads_parameters] at h
  cases hpeek : peekIs .closeParen p with
  | true =>
    rw [hpeek, if_pos rfl] at h
    obtain ⟨rfl, rfl⟩ := h
    have hclose : p.peek.kind = .closeParen := by simpa [peekIs] using hpeek
    exact ⟨[], p.peek, .noParameters, hclose, Parser.advance_rest_of_peek hp hclose (by decide)⟩
  | false =>
    rw [hpeek, if_neg Bool.false_ne_true] at h
    obtain ⟨i, r, js, hi, rfl, s, hjs, hclose, rfl⟩ := h
    obtain ⟨hname, rfl, rfl⟩ := reads_parameter.1 hi
    have hitem := (candid_advance.bind fun _ => candid_parameter).keeps
    have hs : s.Standard := hp.advance.later (hjs.later (hitem.collectWhile Parser.stepRelation_later))
    obtain ⟨ts, hts, hrest⟩ : ∃ ts, Derives (.furtherParameters js) ts 0 ∧
        p.advance.advance.rest = ts ++ s.advance.rest := by
      refine Reads.collectWhile_induction (motive := fun p js s =>
        ∃ ts, Derives (.furtherParameters js) ts 0 ∧ p.advance.rest = ts ++ s.advance.rest)
        hitem (consuming_peekIs .comma (by decide) candid_parameter.keeps) ?_ ?_ hp.advance hjs
      · exact fun p _ => ⟨[], .lastParameter, rfl⟩
      · rintro p i r js s hp hc hi ⟨ts, hts, hrest⟩
        have hcomma : p.peek.kind = .comma := by simpa [peekIs] using hc
        rw [reads_advance_bind, reads_parameter] at hi
        obtain ⟨hname, rfl, rfl⟩ := hi
        refine ⟨_, .furtherParameter hcomma hname hts, ?_⟩
        rw [Parser.advance_rest_of_peek hp hcomma (by decide),
          Parser.advance_rest_of_peek hp.advance hname (by decide), hrest]
        rfl
    refine ⟨_, s.peek, .parameters hname hts, hclose, ?_⟩
    rw [Parser.advance_rest_of_peek hp hname (by decide), hrest,
      Parser.advance_rest_of_peek hs hclose (by decide)]
    rfl

theorem sound_furtherArguments {os : List (Option Expr)} (hp : p.Standard)
    (h : Reads (collectWhile (peekIs .comma) (do advance; argument expr)) p os q) :
    ∃ xs ts n, os = xs.map some ∧ Derives (.furtherArguments xs) ts n ∧
      p.advance.rest = ts ++ q.advance.rest := by
  refine Reads.collectWhile_induction (motive := fun p os q => ∃ xs ts n, os = xs.map some ∧
    Derives (.furtherArguments xs) ts n ∧ p.advance.rest = ts ++ q.advance.rest)
    (candid_advance.bind fun _ => candid_argument hexpr).keeps
    (consuming_peekIs .comma (by decide) (candid_argument hexpr).keeps) ?_ ?_ hp h
  · exact fun p _ => ⟨[], [], 0, rfl, .lastArgument, rfl⟩
  · rintro p o r os q hp hc ho ⟨xs, us, n, rfl, hxs, hrest⟩
    have hcomma : p.peek.kind = .comma := by simpa [peekIs] using hc
    rw [reads_advance_bind, reads_argument hexpr] at ho
    obtain ⟨x, rfl, hx⟩ := ho
    obtain ⟨ts, m, hts, hrest', -⟩ := hsound (by decide) hp.advance.advance hx
    refine ⟨x :: xs, _, max m n, rfl, .furtherArgument hcomma hts hxs, ?_⟩
    rw [Parser.advance_rest_of_peek hp hcomma (by decide), hrest', hrest, List.cons_append,
      List.append_assoc]

theorem sound_arguments {xs : List Expr} (hp : p.Standard) (h : Reads (arguments expr) p xs q) :
    ∃ ts c n, Derives (.arguments xs) ts n ∧ c.kind = .closeParen ∧
      p.advance.rest = ts ++ c :: q.advance.rest := by
  rw [reads_arguments hexpr] at h
  cases hpeek : peekIs .closeParen p with
  | true =>
    rw [hpeek, if_pos rfl] at h
    obtain ⟨rfl, rfl⟩ := h
    have hclose : p.peek.kind = .closeParen := by simpa [peekIs] using hpeek
    exact ⟨[], p.peek, 0, .noArguments, hclose, Parser.advance_rest_of_peek hp hclose (by decide)⟩
  | false =>
    rw [hpeek, if_neg Bool.false_ne_true] at h
    obtain ⟨x, r, ys, hx, rfl, s, hys, hclose, rfl⟩ := h
    have hr : r.Standard := hp.advance.later (hx.later (hexpr _).keeps)
    have hs : s.Standard := hr.later (hys.later
      (candid_advance.bind fun _ => candid_argument hexpr).collectWhile.keeps)
    obtain ⟨ts, m, hts, hrest, -⟩ := hsound (by decide) hp.advance hx
    obtain ⟨zs, us, n, hmap, hus, hrest'⟩ := sound_furtherArguments hexpr hsound hr hys
    rw [List.map_inj_right fun _ _ => Option.some.inj] at hmap
    subst hmap
    refine ⟨_, s.peek, max m n, .arguments hts hus, hclose, ?_⟩
    rw [hrest, hrest', Parser.advance_rest_of_peek hs hclose (by decide), List.append_assoc]

/-! ### Expressions -/

omit hexpr hsound in
/-- Nothing binds tighter than a call. -/
theorem le_call (bp : Power) : bp ≤ .call := by
  cases bp <;> decide

omit hexpr hsound in
/-- Where the operators have to bind no tighter than a call, an operator before its operand may
stand. -/
theorem admits_unary {bp : Power} (h : bp < .call) : bp.Admits .unary := by
  cases bp <;> first | exact .inl (by decide) | exact .inr ⟨rfl, rfl⟩ | exact absurd h (by decide)

theorem sound_conditional {x : Expr} (hp : p.Standard) (hif : p.current.kind = .kwIf)
    (h : Reads (conditional expr) p x q) :
    ∃ ts n, Derives (.part x .call) ts n ∧ p.rest = ts ++ q.advance.rest := by
  obtain ⟨hopen, c, r, hc, hclose, hbrace, a, s, ha, b, hb, rfl⟩ := (reads_conditional hexpr).1 h
  have hr : r.Standard := hp.advance.advance.later (hc.later (hexpr _).keeps)
  have hs : s.Standard := hr.advance.advance.later (ha.later (candid_block hexpr).keeps)
  obtain ⟨ts, k, hts, hrest, -⟩ := hsound (by decide) hp.advance.advance hc
  obtain ⟨as, m, has, hrest'⟩ := sound_block hexpr hsound hr.advance.advance
    (by rwa [Parser.current_advance]) ha
  obtain ⟨bs, n, hbs, hrest''⟩ := sound_otherwise hexpr hsound hs hb
  refine ⟨_, _, .conditional hif hopen hts hclose has hbs, ?_⟩
  rw [Parser.rest_eq_cons hp (by rw [hif]; decide), Parser.advance_rest_of_peek hp hopen (by decide),
    hrest, Parser.advance_rest_of_peek hr hclose (by decide), hrest', hrest'']
  simp

theorem sound_function {x : Expr} (hp : p.Standard) (hfn : p.current.kind = .kwFn)
    (h : Reads (function expr) p x q) :
    ∃ ts n, Derives (.part x .call) ts n ∧ p.rest = ts ++ q.advance.rest := by
  obtain ⟨hopen, is, r, his, hbrace, b, hb, rfl⟩ := (reads_function hexpr).1 h
  have hr : r.Standard := hp.advance.later (his.later candid_parameters.keeps)
  obtain ⟨ts, c, hts, hclose, hrest⟩ := sound_parameters hp.advance his
  obtain ⟨bs, n, hbs, hrest'⟩ := sound_block hexpr hsound hr.advance
    (by rwa [Parser.current_advance]) hb
  refine ⟨_, n, .function hfn hopen hts hclose hbs, ?_⟩
  rw [Parser.rest_eq_cons hp (by rw [hfn]; decide), Parser.advance_rest_of_peek hp hopen (by decide),
    hrest, hrest']
  simp

theorem sound_grouping {x : Expr} (hp : p.Standard) (hopen : p.current.kind = .openParen)
    (h : Reads (grouping expr) p x q) :
    ∃ ts n, Derives (.part x .call) ts n ∧ p.rest = ts ++ q.advance.rest := by
  obtain ⟨r, hx, hclose, rfl⟩ := (reads_grouping hexpr).1 h
  have hr : r.Standard := hp.advance.later (hx.later (hexpr _).keeps)
  obtain ⟨ts, n, hts, hrest, -⟩ := hsound (by decide) hp.advance hx
  refine ⟨_, n, .grouping hopen hts hclose, ?_⟩
  rw [Parser.rest_eq_cons hp (by rw [hopen]; decide), hrest,
    Parser.advance_rest_of_peek hr hclose (by decide)]
  simp

theorem sound_unary {bp : Power} {x : Expr} (hbp : bp < .call) (hp : p.Standard)
    (ho : p.current.kind = .bang ∨ p.current.kind = .minus) (h : Reads (unary expr) p x q) :
    ∃ ts n s, Derives (.part x s) ts n ∧ bp.Admits s ∧ p.rest = ts ++ q.advance.rest ∧
      Grammar.standard.power q.peek.kind ≤ s := by
  obtain ⟨y, hy, rfl⟩ := (reads_unary hexpr).1 h
  obtain ⟨ts, n, hts, hrest, hpower⟩ := hsound (by decide) hp.advance hy
  refine ⟨_, n, .unary, .prefixOp ho hts, admits_unary hbp, ?_, hpower⟩
  rw [Parser.rest_eq_cons hp (by rcases ho with ho | ho <;> rw [ho] <;> decide), hrest]
  rfl

/-- A first part is derived, and what comes next binds no tighter than it. -/
theorem sound_prefixBy {rule : PrefixRule} {bp : Power} {x : Expr} (hbp : bp < .call)
    (hp : p.Standard) (hrule : Grammar.standardPrefixRule? p.current.kind = some rule)
    (h : Reads (prefixBy expr rule) p x q) :
    ∃ ts n s, Derives (.part x s) ts n ∧ bp.Admits s ∧ p.rest = ts ++ q.advance.rest ∧
      Grammar.standard.power q.peek.kind ≤ s := by
  -- all but an operator before its operand is closed in itself
  have hclosed : (∃ ts n, Derives (.part x .call) ts n ∧ p.rest = ts ++ q.advance.rest) →
      ∃ ts n s, Derives (.part x s) ts n ∧ bp.Admits s ∧ p.rest = ts ++ q.advance.rest ∧
        Grammar.standard.power q.peek.kind ≤ s :=
    fun ⟨ts, n, hts, hrest⟩ => ⟨ts, n, .call, hts, .inl hbp, hrest, le_call _⟩
  have hkind {k : Kind} (hk : p.current.kind = k) (hne : k ≠ .eof) :
      p.rest = [p.current] ++ p.advance.rest := Parser.rest_eq_cons hp (by rwa [hk])
  cases hk : p.current.kind <;> rw [hk] at hrule <;>
    simp only [Grammar.standardPrefixRule?, Option.some.injEq, reduceCtorEq] at hrule <;> subst hrule
  case identifier =>
    rw [prefixBy, identifier, reads_currentToken_bind, reads_pure] at h
    obtain ⟨rfl, rfl⟩ := h
    exact hclosed ⟨_, 0, .identifier hk, hkind hk (by decide)⟩
  case integer =>
    obtain ⟨value, hvalue, rfl, rfl⟩ := reads_integer.1 h
    exact hclosed ⟨_, 0, .integer hk hvalue, hkind hk (by decide)⟩
  case kwTrue | kwFalse =>
    rw [prefixBy, boolean, reads_currentToken_bind, reads_pure] at h
    obtain ⟨rfl, rfl⟩ := h
    exact hclosed ⟨_, 0, .boolean (by simp [hk]), hkind hk (by decide)⟩
  case bang => exact sound_unary hexpr hsound hbp hp (.inl hk) h
  case minus => exact sound_unary hexpr hsound hbp hp (.inr hk) h
  case openParen => exact hclosed (sound_grouping hexpr hsound hp hk h)
  case kwIf => exact hclosed (sound_conditional hexpr hsound hp hk h)
  case kwFn => exact hclosed (sound_function hexpr hsound hp hk h)

/-- **Continuations**: from an expression that ends at the current token, and behind which nothing
binds tighter, to the whole one. -/
theorem sound_continueExpr {bp s : Power} {left x : Expr} {ls ts : List Token} {m : Nat}
    (hp : p.Standard) (hleft : Derives (.part left s) ls m) (hadmits : bp.Admits s)
    (hpower : Grammar.standard.power p.peek.kind ≤ s) (hrest : ts = ls ++ p.advance.rest)
    (h : Reads (continueExpr expr bp left) p x q) :
    ∃ us n s', Derives (.part x s') us n ∧ bp.Admits s' ∧ ts = us ++ q.advance.rest ∧
      Grammar.standard.power q.peek.kind ≤ bp := by
  -- each round reads a token; behind it nothing binds tighter than the expression that was built
  induction hn : p.remaining using Nat.strong_induction_on generalizing p left s ls m with
  | _ n ih =>
    cases hop : p.operatorAhead? bp with
    | none =>
      obtain ⟨rfl, rfl⟩ := (reads_continueExpr_none hop).1 h
      exact ⟨ls, m, s, hleft, hadmits, hrest, Parser.power_peek_le hp hop⟩
    | some op =>
      obtain ⟨y, r, hy, hcontinue⟩ := (reads_continueExpr_some hexpr hp hop).1 h
      have hlater : Parser.Later p.advance r :=
        hy.later (candid_infixBy hexpr op.rule left op.power).keeps
      have hindex := hlater.index_le
      rw [Parser.advance_index] at hindex
      have hless : r.remaining < n := hn ▸ ((Parser.later_advance p).trans hlater).remaining_lt
        (by omega) (index_lt_size_of_operator hp hop)
      have hr : r.Standard := hp.advance.later hlater
      obtain ⟨hlt, hpow, ⟨hrule, hbinary⟩ | ⟨hrule, hopen, hcall⟩⟩ :=
        Parser.operatorAhead?_eq_some hp hop
      · rw [hrule] at hy
        obtain ⟨z, hz, rfl⟩ := (reads_binary hexpr).1 hy
        have hcall : op.power < .call :=
          Nat.lt_trans (lt_unary_of_binaryPower? hbinary) (by decide : Power.unary < .call)
        obtain ⟨rs, k, hrs, hrest', hpower'⟩ := hsound hcall hp.advance.advance hz
        -- the operator binds no tighter than its left operand, which is what the grammar asks for
        rw [← hpow] at hpower
        refine ih _ hless hr (.infixOp hleft ?_ hpower hrs) (.inl hlt) hpower' ?_ hcontinue rfl
        · rw [Parser.current_advance]
          exact hbinary
        · have hne : p.peek.kind ≠ .eof := by
            intro heof
            rw [heof] at hbinary
            exact absurd hbinary (by simp [Kind.binaryPower?])
          rw [hrest, Parser.advance_rest_eq_cons hp hne, hrest', Parser.current_advance]
          simp
      · rw [hrule] at hy
        obtain ⟨zs, hzs, rfl⟩ := (reads_call hexpr).1 hy
        obtain ⟨us, c, k, hus, hclose, hrest'⟩ := sound_arguments hexpr hsound hp.advance hzs
        -- what a call continues binds as tightly as a call
        obtain rfl : s = .call := by
          rw [← hpow, hcall] at hpower
          cases s <;> first | rfl | exact absurd hpower (by decide)
        refine ih _ hless hr (.call hleft ?_ hus hclose) (.inl (hcall ▸ hlt)) (le_call _) ?_
          hcontinue rfl
        · rw [Parser.current_advance]
          exact hopen
        · rw [hrest, Parser.advance_rest_of_peek hp hopen (by decide), hrest', Parser.current_advance]
          simp

theorem sound_climb {bp : Power} {x : Expr} (hbp : bp < .call) (hp : p.Standard)
    (h : Reads (climb expr bp) p x q) :
    ∃ ts n s, Derives (.part x s) ts n ∧ bp.Admits s ∧ p.rest = ts ++ q.advance.rest ∧
      Grammar.standard.power q.peek.kind ≤ bp := by
  obtain ⟨rule, left, r, hrule, hleft, hcontinue⟩ := (reads_climb hexpr).1 h
  have hlater := keeps_prefixBy Parser.stepRelation_later (fun power => (hexpr power).keeps) hrule
  rw [hleft.1] at hlater
  rw [hp.prefixRule?_eq] at hrule
  obtain ⟨ls, m, s, hls, hadmits, hrest, hpower⟩ := sound_prefixBy hexpr hsound hbp hp hrule hleft
  exact sound_continueExpr hexpr hsound (hp.later hlater) hls hadmits hpower hrest hcontinue

end Rules

/-- **Expressions read soundly**, whatever the levels that are left. -/
theorem sound_exprWithin (levels : Nat) : Sound (exprWithin levels) := by
  induction levels with
  | zero => exact fun _ _ h => absurd h not_reads_exprWithin_zero
  | succ levels ih =>
    intro bp p x q hbp hp h
    obtain ⟨-, r, hr, rfl⟩ := reads_exprWithin_succ.1 h
    obtain ⟨ts, n, s, hts, hadmits, hrest, hpower⟩ :=
      sound_climb (candid_exprWithin levels) ih hbp (hp.withDepth _) hr
    refine ⟨ts, n + 1, .expr hts hadmits, ?_, hpower⟩
    rw [Parser.advance_withDepth]
    exact hrest

theorem sound_parseExpr : Sound parseExpr := by
  intro bp p x q hbp hp h
  rw [parseExpr, reads_get_bind] at h
  exact sound_exprWithin p.levels hbp hp h

end Parsing

end MonkeySyntax
