import MonkeySyntax.Proofs.Parsing.GapCourse

/-! # What is read where every expression is asked for in its place

The other direction of `Gapped.passes`. A run that asks for no expression at a comma or at a closing
parenthesis may still leave parentheses open, but it never closes more of them than it has opened; and
what it has read is a text with gaps if it has closed them all.

* `Parser.Spans p ts q` — the tokens from `p` to `q`; `openParens`, `closeParens` — the parentheses in them.
* `Parser.Listed m p` — no braces, no semicolon and no end of the source up to the token `m`.
* `Tidy` — a course inside such a list; `Tidy.operand`, `Tidy.require`, … — the way it goes on.
* **`Stretch.Found`**, **`Tidy.found_expression`** — what such a course has read. -/

namespace MonkeySyntax

open Parsing

/-! ### Tokens that have been read -/

/-- **The tokens from the current one of `p` to that of `q`**, both included. -/
structure Parser.Spans (p : Parser) (ts : List Token) (q : Parser) : Prop where
  /-- So many tokens they are. -/
  last : q.index + 1 = p.index + ts.length
  /-- They head the tokens that were left. -/
  rest_eq : p.rest = ts ++ q.advance.rest

namespace Parser.Spans

variable {p q r : Parser} {ts us : List Token}

/-- Nothing lies between a token and the one behind it. -/
theorem nil (p : Parser) : p.advance.Spans [] p :=
  ⟨by simp, rfl⟩

theorem append (h : p.Spans ts q) (h' : q.advance.Spans us r) : p.Spans (ts ++ us) r := by
  refine ⟨?_, by rw [h.rest_eq, h'.rest_eq, List.append_assoc]⟩
  have hlast := h.last
  have hlast' := h'.last
  rw [advance_index] at hlast'
  rw [List.length_append]
  omega

/-- One token more in front. -/
theorem cons (hp : p.Standard) (hkind : p.current.kind ≠ .eof) (h : p.advance.Spans ts q) :
    p.Spans (p.current :: ts) q := by
  refine ⟨?_, by rw [rest_eq_cons hp hkind, h.rest_eq, List.cons_append]⟩
  rw [h.last, advance_index, List.length_cons]
  omega

/-- The current token alone. -/
theorem single (hp : p.Standard) (hkind : p.current.kind ≠ .eof) : p.Spans [p.current] p :=
  .cons hp hkind (nil p)

/-- What is reported does not matter here. -/
theorem stay (h : p.Spans ts q) (hr : Later q r) (hindex : r.index = q.index) : p.Spans ts r := by
  refine ⟨hindex ▸ h.last, ?_⟩
  rw [h.rest_eq, rest, rest, advance_tokens, advance_tokens, hr.tokens_eq, advance_index,
    advance_index, hindex]

end Parser.Spans

/-- Where a parser stays the same token is ahead. -/
theorem Parser.Later.peek_eq {p q : Parser} (h : Later p q) (hindex : q.index = p.index) :
    q.peek = p.peek := by
  rw [peek, peek, hindex, h.tokenAt_eq]

/-! ### Parentheses -/

/-- The number of **opening parentheses**. -/
def openParens (ts : List Token) : Nat :=
  (ts.map Token.kind).count .openParen

/-- The number of **closing parentheses**. -/
def closeParens (ts : List Token) : Nat :=
  (ts.map Token.kind).count .closeParen

section Parentheses

variable (t : Token) (ts us : List Token)

@[simp] theorem openParens_nil : openParens [] = 0 := rfl

@[simp] theorem closeParens_nil : closeParens [] = 0 := rfl

@[simp] theorem openParens_append : openParens (ts ++ us) = openParens ts + openParens us := by
  simp [openParens, List.count_append]

@[simp] theorem closeParens_append : closeParens (ts ++ us) = closeParens ts + closeParens us := by
  simp [closeParens, List.count_append]

@[simp] theorem openParens_cons :
    openParens (t :: ts) = openParens ts + if t.kind = .openParen then 1 else 0 := by
  simp [openParens, List.count_cons]

@[simp] theorem closeParens_cons :
    closeParens (t :: ts) = closeParens ts + if t.kind = .closeParen then 1 else 0 := by
  simp [closeParens, List.count_cons]

end Parentheses

/-! ### Inside a list -/

/-- The parser follows the rules of the language, and up to the token with the number `m` there are
**no braces, no semicolon and no end of the source**. -/
structure Parser.Listed (m : Nat) (p : Parser) : Prop where
  /-- The rules are those of the language. -/
  standard : p.Standard
  /-- No such token comes up to there. -/
  kinds : ∀ i, p.index ≤ i → i ≤ m →
    (p.tokenAt i).kind ∉ [Kind.openBrace, .closeBrace, .semicolon, .eof]

namespace Parser.Listed

variable {m : Nat} {p q : Parser}

theorem later (hp : p.Listed m) (h : Later p q) : q.Listed m :=
  ⟨hp.standard.later h, fun i hi him => by
    rw [h.tokenAt_eq]; exact hp.kinds i (Nat.le_trans h.index_le hi) him⟩

theorem advance (hp : p.Listed m) : p.advance.Listed m :=
  hp.later (later_advance p)

theorem withDepth (hp : p.Listed m) (depth : Nat) : (p.withDepth depth).Listed m :=
  ⟨hp.standard.withDepth depth, hp.kinds⟩

theorem current_kind (hp : p.Listed m) (hle : p.index ≤ m) :
    p.current.kind ∉ [Kind.openBrace, .closeBrace, .semicolon, .eof] :=
  hp.kinds p.index le_rfl hle

theorem current_ne_eof (hp : p.Listed m) (hle : p.index ≤ m) : p.current.kind ≠ .eof := by
  intro h
  exact hp.current_kind hle (by simp [h])

theorem spans_single (hp : p.Listed m) (hle : p.index ≤ m) : p.Spans [p.current] p :=
  .single hp.standard (hp.current_ne_eof hle)

/-- What is neither a parenthesis nor a comma stands for itself. -/
theorem simple (hp : p.Listed m) (hle : p.index ≤ m)
    (hplace : p.current.kind ≠ .comma ∧ p.current.kind ≠ .closeParen)
    (hopen : p.current.kind ≠ .openParen) : p.current.kind.Simple := by
  have hkind := hp.current_kind hle
  obtain ⟨hcomma, hclose⟩ := hplace
  revert hkind hcomma hclose hopen
  cases p.current.kind <;> decide

end Parser.Listed

/-- **A course inside a list**, up to the token with the number `m`, with expressions in their places. -/
structure Tidy (l m : Nat) (routine : Routine) (p : Parser) (ok : Bool) (log : List Event)
    (q : Parser) : Prop where
  /-- This is the course. -/
  course : Course (fun _ => True) routine p ok log q
  /-- So many levels are left. -/
  level : p.OnLevel l
  /-- It is inside a list. -/
  listed : p.Listed m
  /-- It does not go further. -/
  index_le : q.index ≤ m
  /-- No expression is asked for at a comma or a closing parenthesis. -/
  inPlace : ∀ e ∈ log, e.InPlace

/-- **What has been read from `p` to `q`**: no more parentheses are closed in it than opened, and if they
are as many it is a text with gaps. -/
def Stretch.Found (l : Nat) (stretch : Stretch) (p : Parser) (ok : Bool) (q : Parser) : Prop :=
  ∃ ts, p.Spans ts q ∧ closeParens ts ≤ openParens ts ∧
    (closeParens ts = openParens ts → ∃ n, Gapped l stretch ts q.peek.kind ok n)

namespace Tidy

variable {l m N opener : Nat} {whole ok spoilt : Bool} {kind : Kind} {power : Power} {b : Branch}
  {parts : List Part} {p q : Parser} {log : List Event}

/-! ### How a rule goes on -/

theorem start_le {routine : Routine} (h : Tidy l m routine p ok log q) : p.index ≤ m :=
  Nat.le_trans h.course.later.index_le h.index_le

theorem done (h : Tidy l m (.rest opener whole []) p ok log q) : ok = whole ∧ q = p := by
  cases h.course
  exact ⟨rfl, rfl⟩

/-- Either the required token comes next, or the rule stops. -/
theorem require (h : Tidy l m (.rest opener whole (.require kind :: parts)) p ok log q) :
    (p.peek.kind = kind ∧ ∃ rest, log = ⟨p, .advance⟩ :: rest ∧
      Tidy l m (.rest opener whole parts) p.advance ok rest q) ∨
    (p.peek.kind ≠ kind ∧ ok = false ∧ q.index = p.index) := by
  cases h.course with
  | required hkind hpeek hrest =>
    exact .inl ⟨hpeek, _, rfl, hrest, h.level.advance, h.listed.advance, h.index_le,
      (List.forall_mem_cons.1 h.inPlace).2⟩
  | missing hpeek => exact .inr ⟨hpeek, rfl, rfl⟩

theorem pass (h : Tidy l m (.rest opener whole (.pass kind :: parts)) p ok log q) :
    p.peek.kind = kind ∧ ∃ rest, log = ⟨p, .advance⟩ :: rest ∧
      Tidy l m (.rest opener whole parts) p.advance ok rest q := by
  cases h.course with
  | passed hkind hpeek hrest =>
    exact ⟨hpeek, _, rfl, hrest, h.level.advance, h.listed.advance, h.index_le,
      (List.forall_mem_cons.1 h.inPlace).2⟩

/-- There is no block inside a list. -/
theorem block (h : Tidy l m (.rest opener whole (.block :: parts)) p ok log q) :
    p.peek.kind ≠ .openBrace ∧ ok = false ∧ q.index = p.index := by
  have hno {r : Parser} (hr : Parser.Later p.advance r) (hle : r.index ≤ m) :
      p.peek.kind ≠ .openBrace := by
    intro hpeek
    have hkind := h.listed.advance.current_kind (Nat.le_trans hr.index_le hle)
    simp [hpeek] at hkind
  cases h.course with
  | blockMissing hpeek => exact ⟨hpeek, rfl, rfl⟩
  | blockFails hpeek hblock => exact absurd hpeek (hno hblock.later h.index_le)
  | blockRead hpeek hblock hrest =>
    exact absurd hpeek (hno (hblock.later.trans hrest.later) h.index_le)

theorem branch (h : Tidy l m (.rest opener whole (.branch b :: parts)) p ok log q) :
    Tidy l m (.rest opener whole (b.parts p ++ parts)) p ok log q := by
  cases h.course with
  | branch hrest => exact ⟨hrest, h.level, h.listed, h.index_le, h.inPlace⟩

/-- An operand and what is behind it. -/
theorem operand (h : Tidy l m (.rest opener whole (.operand spoilt power :: parts)) p ok log q) :
    ∃ found first r rest, log = ⟨p, .advance⟩ :: (first ++ rest) ∧
      Tidy l m (.expression power) p.advance found first r ∧
      Tidy l m (.rest opener (whole && (found || !spoilt)) parts) r ok rest q := by
  cases h.course with
  | operand _ hvalue hrest =>
    have hlog := h.inPlace
    simp only [List.forall_mem_cons, List.forall_mem_append] at hlog
    exact ⟨_, _, _, _, rfl,
      ⟨hvalue, h.level.advance, h.listed.advance, Nat.le_trans hrest.later.index_le h.index_le, hlog.2.1⟩,
      ⟨hrest, h.level.advance.later hvalue.later, h.listed.advance.later hvalue.later, h.index_le,
        hlog.2.2⟩⟩

/-- A first part that is no number is read by the parts of its rule. -/
theorem first {rule : PrefixRule} (h : Tidy l m (.first rule) p ok log q) (hrule : rule ≠ .integer) :
    Tidy l m (.rest p.index true rule.parts) p ok log q := by
  cases h.course with
  | invalidInteger => exact absurd rfl hrule
  | first _ hrest => exact ⟨hrest, h.level, h.listed, h.index_le, h.inPlace⟩

end Tidy

/-! ### What the rules have read -/

section Found

variable {l m N opener : Nat} {whole ok v : Bool} {bp power : Power} {stretch : Stretch}
  {parts : List Part} {p q r : Parser} {log : List Event} {ts us : List Token}

/-- Where a parenthesis is left open nothing more is said. -/
theorem Stretch.found_of_lt (hspans : p.Spans ts q) (h : closeParens ts < openParens ts) :
    stretch.Found l p ok q :=
  ⟨ts, hspans, Nat.le_of_lt h, fun heq => absurd heq (Nat.ne_of_lt h)⟩

/-- The token ahead is the first of those that are read next. -/
theorem Parser.Spans.peek_kind (h : r.advance.Spans us q) (hq : Parser.Later r q) :
    r.peek.kind = kindAhead us q.peek.kind := by
  cases us with
  | nil =>
    have hlast := h.last
    rw [Parser.advance_index, List.length_nil] at hlast
    rw [kindAhead_nil, hq.peek_eq (by omega)]
  | cons u us =>
    have hpeek := Parser.current_of_rest h.rest_eq
    rw [Parser.current_advance] at hpeek
    rw [kindAhead_cons, hpeek]

theorem Stretch.found_atom (hp : p.Listed m) (hle : p.index ≤ m) (ht : p.current.IsAtom) :
    Stretch.first.Found l p true p := by
  refine ⟨[p.current], hp.spans_single hle, ?_, fun _ => ⟨0, .atom ht⟩⟩
  rcases ht with hkind | ⟨hkind, -⟩
  · rcases List.mem_cons.1 hkind with hkind | hkind
    · simp [hkind]
    · rcases List.mem_cons.1 hkind with hkind | hkind
      · simp [hkind]
      · simp [List.mem_singleton.1 hkind]
  · simp [hkind]

/-- A token at which nothing can be read is a gap, and the parser stays there. -/
theorem Stretch.found_gap (hp : p.Listed m) (hle : p.index ≤ m)
    (hplace : p.current.kind ≠ .comma ∧ p.current.kind ≠ .closeParen)
    (hopen : p.current.kind ≠ .openParen)
    (hfails : ¬ p.current.kind.StartsExpr ∨
      p.current.kind = .integer ∧ integerValue? p.current.text = none ∨
      (p.current.kind = .kwIf ∨ p.current.kind = .kwFn) ∧ p.peek.kind ≠ .openParen)
    (hq : Parser.Later p q) (hindex : q.index = p.index) : Stretch.first.Found l p false q := by
  refine ⟨[p.current], (hp.spans_single hle).stay hq hindex, by simp [hplace, hopen], fun _ => ⟨1, .gap ?_⟩⟩
  exact ⟨hp.simple hle hplace hopen, hq.peek_eq hindex ▸ hfails⟩

/-- A first part that is not continued is an operand all the same. -/
theorem Stretch.Found.broken (h : Stretch.first.Found l p false q) :
    (Stretch.operand bp).Found (l + 1) p false q := by
  obtain ⟨ts, hspans, hle, hgapped⟩ := h
  exact ⟨ts, hspans, hle, fun heq => (hgapped heq).imp fun _ => .broken⟩

/-- What is read one level further in. -/
theorem Stretch.Found.nested {depth depth' : Nat}
    (h : stretch.Found l (p.withDepth depth) ok q) : stretch.Found l p ok (q.withDepth depth') := by
  obtain ⟨ts, hspans, hle, hgapped⟩ := h
  exact ⟨ts, ⟨hspans.last, by rw [Parser.advance_withDepth]; exact hspans.rest_eq⟩, hle, hgapped⟩

/-- **What has been read behind an opening parenthesis**, if it is closed again: the stretch and the
closing parenthesis. -/
def Stretch.FoundClosed (l : Nat) (stretch : Stretch) (whole : Bool) (p : Parser) (ok : Bool)
    (q : Parser) : Prop :=
  ∃ ts, p.advance.Spans ts q ∧ closeParens ts ≤ openParens ts + 1 ∧
    (closeParens ts = openParens ts + 1 → ∃ us c w n, ts = us ++ [c] ∧ c.kind = .closeParen ∧
      ok = (whole && w) ∧ Gapped l stretch us .closeParen w n)

/-- Expressions with shorter courses are known. -/
def FoundBelow (m N : Nat) : Prop :=
  ∀ {l : Nat} {bp : Power} {p q : Parser} {ok : Bool} {log : List Event}, log.length < N →
    Tidy l m (.expression bp) p ok log q → (Stretch.operand bp).Found l p ok q

variable (hN : FoundBelow m N)
include hN

/-! #### Operands -/

theorem Tidy.found_lastOperand (h : Tidy l m (.rest opener true [.operand false power]) p ok log q)
    (hlength : log.length ≤ N) :
    ok = true ∧ ∃ v, (Stretch.operand power).Found l p.advance v q := by
  obtain ⟨found, first, r, rest, rfl, hvalue, hrest⟩ := h.operand
  obtain ⟨rfl, rfl⟩ := hrest.done
  simp only [List.length_cons, List.length_append] at hlength
  exact ⟨by simp, found, hN (by omega) hvalue⟩

theorem Tidy.found_unary (h : Tidy l m (.rest opener true PrefixRule.unary.parts) p ok log q)
    (hlength : log.length ≤ N) (hkind : p.current.kind = .bang ∨ p.current.kind = .minus) :
    Stretch.first.Found l p ok q := by
  obtain ⟨rfl, v, ts, hspans, hle, hgapped⟩ := h.found_lastOperand hN hlength
  have hnone : p.current.kind ≠ .openParen ∧ p.current.kind ≠ .closeParen := by
    rcases hkind with hkind | hkind <;> simp [hkind]
  refine ⟨p.current :: ts, .cons h.listed.standard (h.listed.current_ne_eof h.start_le) hspans,
    by simpa [hnone] using hle, fun heq => ?_⟩
  obtain ⟨n, hn⟩ := hgapped (by simpa [hnone] using heq)
  exact ⟨n, .prefixOp hkind hn⟩

theorem Tidy.found_grouping (h : Tidy l m (.rest opener true PrefixRule.grouping.parts) p ok log q)
    (hlength : log.length ≤ N) (hkind : p.current.kind = .openParen) :
    Stretch.first.Found l p ok q := by
  obtain ⟨found, first, r, rest, rfl, hvalue, hrest⟩ := h.operand
  simp only [List.length_cons, List.length_append] at hlength
  obtain ⟨ts, hspans, hle, hgapped⟩ := hN (by omega) hvalue
  have hopen : p.Spans (p.current :: ts) r :=
    .cons h.listed.standard (h.listed.current_ne_eof h.start_le) hspans
  -- the parenthesis is closed behind what is inside, or it stays open
  rcases hrest.require with ⟨hpeek, _, -, hclosed⟩ | ⟨-, rfl, hindex⟩
  · obtain ⟨rfl, rfl⟩ := hclosed.done
    have hclose : r.advance.current.kind = .closeParen := by rw [Parser.current_advance, hpeek]
    refine ⟨p.current :: ts ++ [r.advance.current],
      hopen.append (hclosed.listed.spans_single hclosed.start_le), by simp [hkind, hpeek]; omega,
      fun heq => ?_⟩
    obtain ⟨n, hn⟩ := hgapped (by simpa [hkind, hpeek] using heq)
    refine ⟨n, ?_⟩
    rw [hpeek] at hn
    simpa using Gapped.grouping hkind hn hclose
  · exact Stretch.found_of_lt (hopen.stay hrest.course.later hindex) (by simp [hkind]; omega)

/-! #### Choices and functions -/

omit hN in
/-- A parenthesis that is read where a block is required, which is not there. -/
theorem Tidy.found_noBlock (h : Tidy l m (.rest opener whole (.block :: parts)) p ok log q) :
    ok = false ∧ p.Spans [p.current] q ∧ q.peek.kind ≠ .openBrace := by
  obtain ⟨hnoblock, hok, hindex⟩ := h.block
  have hlater := h.course.later
  exact ⟨hok, (h.listed.spans_single h.start_le).stay hlater hindex, hlater.peek_eq hindex ▸ hnoblock⟩

theorem Tidy.found_conditional
    (h : Tidy l m (.rest opener true PrefixRule.conditional.parts) p ok log q)
    (hlength : log.length ≤ N) (hkind : p.current.kind = .kwIf) :
    Stretch.first.Found l p ok q := by
  have heof := h.listed.current_ne_eof h.start_le
  rcases h.require with ⟨hpeek, rest, rfl, hrest⟩ | ⟨hpeek, rfl, hindex⟩
  · have hopen : p.advance.current.kind = .openParen := by rw [Parser.current_advance, hpeek]
    obtain ⟨found, first, r, rest, rfl, hvalue, hclose⟩ := hrest.operand
    simp only [List.length_cons, List.length_append] at hlength
    obtain ⟨ts, hspans, hle, hgapped⟩ := hN (by omega) hvalue
    have hread : p.Spans (p.current :: p.advance.current :: ts) r :=
      .cons h.listed.standard heof
        (.cons hrest.listed.standard (hrest.listed.current_ne_eof hrest.start_le) hspans)
    -- behind the closing parenthesis a block would be next, but there are none in a list
    rcases hclose.require with ⟨hpeek', _, -, hblock⟩ | ⟨-, rfl, hindex⟩
    · have hclosed : r.advance.current.kind = .closeParen := by rw [Parser.current_advance, hpeek']
      obtain ⟨rfl, hlast, hnoblock⟩ := hblock.found_noBlock
      refine ⟨p.current :: p.advance.current :: ts ++ [r.advance.current], hread.append hlast,
        by simp [hkind, hpeek, hpeek']; omega, fun heq => ?_⟩
      obtain ⟨n, hn⟩ := hgapped (by simpa [hkind, hpeek, hpeek'] using heq)
      rw [hpeek'] at hn
      exact ⟨n + 1, by simpa using Gapped.conditional hkind hopen hn hclosed hnoblock⟩
    · exact Stretch.found_of_lt (hread.stay hclose.course.later hindex)
        (by simp [hkind, hpeek]; omega)
  · exact Stretch.found_gap h.listed h.start_le (by simp [hkind]) (by simp [hkind])
      (.inr (.inr ⟨.inl hkind, hpeek⟩)) h.course.later hindex

omit hN in
/-- **The parameters behind the first one**, the parenthesis and no block. -/
theorem Tidy.found_furtherParameters
    (h : Tidy l m (.rest opener whole [.branch .furtherParameters, .block]) p ok log q) :
    ∃ ts, p.advance.Spans ts q ∧ ok = false ∧ closeParens ts ≤ openParens ts + 1 ∧
      (closeParens ts = openParens ts + 1 → ∃ us c is, ts = us ++ [c] ∧ c.kind = .closeParen ∧
        Derives (.furtherParameters is) us 0 ∧ q.peek.kind ≠ .openBrace) := by
  -- each round reads a comma and a name, so that the rest of the course is shorter
  induction hlog : log.length using Nat.strong_induction_on generalizing p log with
  | _ n ih =>
    have hparts := h.branch
    rw [Branch.parts] at hparts
    by_cases hcomma : peekIs .comma p = true
    · rw [if_pos hcomma] at hparts
      obtain ⟨hpeek, rest, rfl, hname⟩ := hparts.pass
      have hread := hname.listed.spans_single hname.start_le
      rcases hname.require with ⟨hpeek', rest, rfl, hmore⟩ | ⟨-, rfl, hindex⟩
      · simp only [List.length_cons] at hlog
        obtain ⟨ts, hspans, rfl, hle, hderives⟩ := ih rest.length (by omega) hmore rfl
        refine ⟨p.advance.current :: p.advance.advance.current :: ts,
          .cons hname.listed.standard (by simp [hpeek])
            (.cons hmore.listed.standard (by simp [hpeek']) hspans), rfl,
          by simpa [hpeek, hpeek'] using hle, fun heq => ?_⟩
        obtain ⟨us, c, is, rfl, hc, his, hnoblock⟩ := hderives (by simpa [hpeek, hpeek'] using heq)
        exact ⟨p.advance.current :: p.advance.advance.current :: us, c, _, rfl, hc,
          .furtherParameter (by simpa using hpeek) (by simpa using hpeek') his, hnoblock⟩
      · -- no name behind the comma: the parenthesis stays open
        exact ⟨[p.advance.current], hread.stay hname.course.later hindex, rfl, by simp [hpeek],
          fun heq => by simp [hpeek] at heq⟩
    · rw [if_neg hcomma] at hparts
      rcases hparts.require with ⟨hpeek, rest, rfl, hblock⟩ | ⟨-, rfl, hindex⟩
      · obtain ⟨rfl, hlast, hnoblock⟩ := hblock.found_noBlock
        exact ⟨[p.advance.current], hlast, rfl, by simp [hpeek], fun _ =>
          ⟨[], p.advance.current, [], rfl, by simpa using hpeek, .lastParameter, hnoblock⟩⟩
      · exact ⟨[], (Parser.Spans.nil p).stay hparts.course.later hindex, rfl, by simp,
          fun heq => by simp at heq⟩

omit hN in
theorem Tidy.found_parameters
    (h : Tidy l m (.rest opener whole [.branch .parameters, .block]) p ok log q) :
    ∃ ts, p.advance.Spans ts q ∧ ok = false ∧ closeParens ts ≤ openParens ts + 1 ∧
      (closeParens ts = openParens ts + 1 → ∃ us c is, ts = us ++ [c] ∧ c.kind = .closeParen ∧
        Derives (.parameters is) us 0 ∧ q.peek.kind ≠ .openBrace) := by
  have hparts := h.branch
  rw [Branch.parts] at hparts
  by_cases hclose : peekIs .closeParen p = true
  · rw [if_pos hclose] at hparts
    obtain ⟨hpeek, rest, rfl, hblock⟩ := hparts.pass
    obtain ⟨rfl, hlast, hnoblock⟩ := hblock.found_noBlock
    exact ⟨[p.advance.current], hlast, rfl, by simp [hpeek], fun _ =>
      ⟨[], p.advance.current, [], rfl, by simpa using hpeek, .noParameters, hnoblock⟩⟩
  · rw [if_neg hclose] at hparts
    rcases hparts.require with ⟨hpeek, rest, rfl, hmore⟩ | ⟨-, rfl, hindex⟩
    · obtain ⟨ts, hspans, rfl, hle, hderives⟩ := hmore.found_furtherParameters
      refine ⟨p.advance.current :: ts, .cons hmore.listed.standard (by simp [hpeek]) hspans, rfl,
        by simpa [hpeek] using hle, fun heq => ?_⟩
      obtain ⟨us, c, is, rfl, hc, his, hnoblock⟩ := hderives (by simpa [hpeek] using heq)
      exact ⟨p.advance.current :: us, c, _, rfl, hc, .parameters (by simpa using hpeek) his, hnoblock⟩
    · exact ⟨[], (Parser.Spans.nil p).stay hparts.course.later hindex, rfl, by simp,
        fun heq => by simp at heq⟩

omit hN in
theorem Tidy.found_function
    (h : Tidy l m (.rest opener true PrefixRule.function.parts) p ok log q)
    (hkind : p.current.kind = .kwFn) : Stretch.first.Found l p ok q := by
  have heof := h.listed.current_ne_eof h.start_le
  rcases h.require with ⟨hpeek, rest, rfl, hrest⟩ | ⟨hpeek, rfl, hindex⟩
  · have hopen : p.advance.current.kind = .openParen := by rw [Parser.current_advance, hpeek]
    obtain ⟨ts, hspans, rfl, hle, hderives⟩ := hrest.found_parameters
    refine ⟨p.current :: p.advance.current :: ts, .cons h.listed.standard heof
      (.cons hrest.listed.standard (hrest.listed.current_ne_eof hrest.start_le) hspans),
      by simpa [hkind, hpeek] using hle, fun heq => ?_⟩
    obtain ⟨us, c, is, rfl, hc, his, hnoblock⟩ := hderives (by simpa [hkind, hpeek] using heq)
    exact ⟨1, .function hkind hopen his hc hnoblock⟩
  · exact Stretch.found_gap h.listed h.start_le (by simp [hkind]) (by simp [hkind])
      (.inr (.inr ⟨.inr hkind, hpeek⟩)) h.course.later hindex

/-! #### Arguments -/

/-- An argument and the others: what the first of them and the rest have read makes up the text. -/
theorem Tidy.found_argument
    (h : Tidy l m (.rest opener whole [.operand true .lowest, .branch .furtherArguments]) p ok log q)
    (hlength : log.length ≤ N)
    (hfurther : ∀ {whole' r rest}, rest.length < log.length →
      Tidy l m (.rest opener whole' [.branch .furtherArguments]) r ok rest q →
        Stretch.furtherArguments.FoundClosed l whole' r ok q) :
    ∃ ts, p.advance.Spans ts q ∧ closeParens ts ≤ openParens ts + 1 ∧
      (closeParens ts = openParens ts + 1 → ∃ xs us c v w m n, ts = xs ++ us ++ [c] ∧ c.kind = .closeParen ∧
        ok = (whole && (v && w)) ∧ Gapped l (.operand .lowest) xs (kindAhead us .closeParen) v m ∧
        Gapped l .furtherArguments us .closeParen w n) := by
  obtain ⟨found, first, r, rest, rfl, hvalue, hrest⟩ := h.operand
  simp only [List.length_cons, List.length_append] at hlength hfurther
  obtain ⟨xs, hspans, hle, hgapped⟩ := hN (by omega) hvalue
  obtain ⟨ts, hspans', hle', hgapped'⟩ := hfurther (by omega) hrest
  refine ⟨xs ++ ts, hspans.append hspans', by simp; omega, fun heq => ?_⟩
  -- neither part closes more than it may, so if both together close all then each of them does
  rw [closeParens_append, openParens_append] at heq
  obtain ⟨n, hx⟩ := hgapped (by omega)
  obtain ⟨us, c, w, n', rfl, hc, hok, hus⟩ := hgapped' (by omega)
  have hpeek : r.peek.kind = kindAhead us .closeParen := by
    rw [hspans'.peek_kind hrest.course.later]
    cases us <;> simp [hc]
  exact ⟨xs, us, c, found, w, n, n', by simp, hc, by simpa [Bool.and_assoc] using hok, hpeek ▸ hx, hus⟩

theorem Tidy.found_furtherArguments
    (h : Tidy l m (.rest opener whole [.branch .furtherArguments]) p ok log q)
    (hlength : log.length ≤ N) : Stretch.furtherArguments.FoundClosed l whole p ok q := by
  induction hlog : log.length using Nat.strong_induction_on generalizing p log whole with
  | _ n ih =>
    have hparts := h.branch
    rw [Branch.parts] at hparts
    by_cases hcomma : peekIs .comma p = true
    · rw [if_pos hcomma] at hparts
      obtain ⟨hpeek, rest, rfl, hmore⟩ := hparts.pass
      simp only [List.length_cons] at hlog hlength
      obtain ⟨ts, hspans, hle, hgapped⟩ := hmore.found_argument hN (by omega)
        fun hshort hrest => ih _ (by omega) hrest (by omega) rfl
      refine ⟨p.advance.current :: ts, .cons hmore.listed.standard (by simp [hpeek]) hspans,
        by simpa [hpeek] using hle, fun heq => ?_⟩
      obtain ⟨xs, us, c, v, w, m, n, rfl, hc, hok, hx, hus⟩ := hgapped (by simpa [hpeek] using heq)
      exact ⟨p.advance.current :: (xs ++ us), c, v && w, m + n, rfl, hc, hok,
        .furtherArgument (by simpa using hpeek) hx hus⟩
    · rw [if_neg hcomma] at hparts
      rcases hparts.require with ⟨hpeek, rest, rfl, hend⟩ | ⟨-, rfl, hindex⟩
      · obtain ⟨rfl, rfl⟩ := hend.done
        exact ⟨[p.advance.current], hend.listed.spans_single hend.start_le, by simp [hpeek],
          fun _ => ⟨[], p.advance.current, true, 0, rfl, by simpa using hpeek, by simp,
            .lastArgument⟩⟩
      · exact ⟨[], (Parser.Spans.nil p).stay hparts.course.later hindex, by simp,
          fun heq => by simp at heq⟩

/-- **What has been read of the arguments of a call**, from the opening parenthesis on. -/
theorem Tidy.found_arguments (h : Tidy l m (.rest opener whole [.branch .arguments]) p ok log q)
    (hlength : log.length ≤ N) : Stretch.arguments.FoundClosed l whole p ok q := by
  have hparts := h.branch
  rw [Branch.parts] at hparts
  by_cases hclose : peekIs .closeParen p = true
  · rw [if_pos hclose] at hparts
    obtain ⟨hpeek, rest, rfl, hend⟩ := hparts.pass
    obtain ⟨rfl, rfl⟩ := hend.done
    exact ⟨[p.advance.current], hend.listed.spans_single hend.start_le, by simp [hpeek],
      fun _ => ⟨[], p.advance.current, true, 0, rfl, by simpa using hpeek, by simp, .noArguments⟩⟩
  · rw [if_neg hclose] at hparts
    obtain ⟨ts, hspans, hle, hgapped⟩ := hparts.found_argument hN hlength
      fun hshort hrest => hrest.found_furtherArguments hN (by omega)
    refine ⟨ts, hspans, hle, fun heq => ?_⟩
    obtain ⟨xs, us, c, v, w, m, n, rfl, hc, hok, hx, hus⟩ := hgapped heq
    exact ⟨xs ++ us, c, v && w, m + n, rfl, hc, hok, .arguments hx hus⟩

/-! #### Operators -/

omit hN in
/-- An operator ahead comes before the token `m` if anything is read behind it. -/
theorem Tidy.current_operator (h : Tidy l m (.rest opener whole parts) p.advance ok log q) :
    p.advance.Spans [p.peek] p.advance := by
  simpa using h.listed.spans_single h.start_le

/-- An operator and its right operand, and what continues them. -/
theorem Tidy.found_binary {pow : Power}
    (hpow : p.peek.kind.binaryPower? = some pow) (hlt : bp < pow)
    (h : Tidy l m (.rest opener true (InfixRule.binary.parts pow)) p.advance true log r)
    (hlength : log.length ≤ N) (hq : Parser.Later r q)
    (hfound : (Stretch.more bp).Found l r.advance ok q) : (Stretch.more bp).Found l p.advance ok q := by
  obtain ⟨-, v, ts, hspans, hle, hgapped⟩ := h.found_lastOperand hN hlength
  obtain ⟨us, hspans', hle', hgapped'⟩ := hfound
  have hnone : p.peek.kind ≠ .openParen ∧ p.peek.kind ≠ .closeParen := by
    constructor <;> intro hkind <;> simp [hkind, Kind.binaryPower?] at hpow
  refine ⟨p.peek :: (ts ++ us), h.current_operator.append (hspans.append hspans'),
    by simp [hnone]; omega, fun heq => ?_⟩
  -- the operator is no parenthesis, so the operand and what continues it close all of theirs
  simp only [closeParens_cons, closeParens_append, openParens_cons, openParens_append, hnone] at heq
  obtain ⟨n, hn⟩ := hgapped (by simp at heq; omega)
  obtain ⟨n', hn'⟩ := hgapped' (by simp at heq; omega)
  rw [hspans'.peek_kind hq] at hn
  exact ⟨n + n', .infixOp hpow hlt hn hn'⟩

/-- A call, and what continues it. -/
theorem Tidy.found_call (hkind : p.peek.kind = .openParen) (hlt : bp < .call)
    (h : Tidy l m (.rest opener true [.branch .arguments]) p.advance true log r)
    (hlength : log.length ≤ N)
    (hfound : (Stretch.more bp).Found l r.advance ok q) : (Stretch.more bp).Found l p.advance ok q := by
  obtain ⟨ts, hspans, hle, hgapped⟩ := h.found_arguments hN hlength
  obtain ⟨us, hspans', hle', hgapped'⟩ := hfound
  refine ⟨p.peek :: (ts ++ us), h.current_operator.append (hspans.append hspans'),
    by simp [hkind]; omega, fun heq => ?_⟩
  -- the arguments close the parenthesis of the call, which is one more than they open
  simp only [closeParens_cons, closeParens_append, openParens_cons, openParens_append, hkind] at heq
  obtain ⟨vs, c, w, n, rfl, hc, hok, hn⟩ := hgapped (by simp at heq; omega)
  obtain rfl : true = w := by simpa using hok
  obtain ⟨n', hn'⟩ := hgapped' (by simp at heq hle hle'; omega)
  exact ⟨n + n', by simpa using Gapped.call hkind hlt hn hc hn'⟩

/-- A call that gives no value. -/
theorem Tidy.found_brokenCall (hkind : p.peek.kind = .openParen) (hlt : bp < .call)
    (h : Tidy l m (.rest opener true [.branch .arguments]) p.advance false log q)
    (hlength : log.length ≤ N) : (Stretch.more bp).Found l p.advance false q := by
  obtain ⟨ts, hspans, hle, hgapped⟩ := h.found_arguments hN hlength
  refine ⟨p.peek :: ts, h.current_operator.append hspans, by simpa [hkind] using hle, fun heq => ?_⟩
  obtain ⟨us, c, w, n, rfl, hc, hok, hn⟩ := hgapped (by simpa [hkind] using heq)
  obtain rfl : false = w := by simpa using hok
  exact ⟨n, .brokenCall hkind hlt hn hc⟩

/-- **What continues an expression**, by induction on the length of the course. -/
theorem Tidy.found_operators (h : Tidy l m (.operators bp) p ok log q) (hlength : log.length ≤ N) :
    (Stretch.more bp).Found l p.advance ok q := by
  induction hlog : log.length using Nat.strong_induction_on generalizing p log with
  | _ n ih =>
    have hinPlace := h.inPlace
    cases h.course with
    | operatorsEnd hoperator =>
      exact ⟨[], .nil _, le_rfl, fun _ => ⟨0, .done (Parser.power_le_of_operatorAhead? h.level.standard hoperator)⟩⟩
    | operatorFails hoperator hrest =>
      simp only [List.length_cons, List.forall_mem_cons] at hlog hlength hinPlace
      have htidy := Tidy.mk hrest h.level.advance h.listed.advance h.index_le hinPlace.2
      rcases Parser.operatorAhead?_cases h.level.standard hoperator with ⟨pow, -, -, rfl⟩ | ⟨hkind, hlt, rfl⟩
      · -- a sign gives a value even without its right operand
        exact absurd (htidy.found_lastOperand hN (by omega)).1 (by simp)
      · exact htidy.found_brokenCall hN hkind hlt (by omega)
    | operatorRead hoperator hrest hmore =>
      simp only [List.length_cons, List.length_append, List.forall_mem_cons,
        List.forall_mem_append] at hlog hlength hinPlace
      have htidy := Tidy.mk hrest h.level.advance h.listed.advance
        (Nat.le_trans hmore.later.index_le h.index_le) hinPlace.2.1
      have hnext := Tidy.mk hmore (h.level.advance.later hrest.later)
        (h.listed.advance.later hrest.later) h.index_le hinPlace.2.2
      have hfound := ih _ (by omega) hnext (by omega) rfl
      rcases Parser.operatorAhead?_cases h.level.standard hoperator with ⟨pow, hpow, hlt, rfl⟩ | ⟨hkind, hlt, rfl⟩
      · exact htidy.found_binary hN hpow hlt (by omega) hmore.later hfound
      · exact htidy.found_call hN hkind hlt (by omega) hfound

/-! #### Expressions -/

theorem Tidy.found_first {rule : PrefixRule} (h : Tidy l m (.first rule) p ok log q)
    (hlength : log.length ≤ N) (hrule : Grammar.standardPrefixRule? p.current.kind = some rule) :
    Stretch.first.Found l p ok q := by
  have hatom (hatom : p.current.IsAtom) (hdone : Tidy l m (.rest p.index true []) p ok log q) :
      Stretch.first.Found l p ok q := by
    obtain ⟨rfl, rfl⟩ := hdone.done
    exact Stretch.found_atom h.listed h.start_le hatom
  cases hkind : p.current.kind <;> rw [hkind] at hrule <;>
    simp only [Grammar.standardPrefixRule?, Option.some.injEq, reduceCtorEq] at hrule <;> subst hrule
  case integer =>
    cases h.course with
    | invalidInteger hvalue =>
      exact Stretch.found_gap h.listed h.start_le (by simp [hkind]) (by simp [hkind])
        (.inr (.inl ⟨hkind, hvalue⟩)) h.course.later rfl
    | first hvalue hrest =>
      exact hatom (.inr ⟨hkind, hvalue rfl⟩) ⟨hrest, h.level, h.listed, h.index_le, h.inPlace⟩
  case identifier | kwTrue | kwFalse => exact hatom (.inl (by simp [hkind])) (h.first (by simp))
  case minus | bang =>
    exact (h.first (by simp)).found_unary hN hlength (by simp [hkind])
  case openParen => exact (h.first (by simp)).found_grouping hN hlength hkind
  case kwFn => exact (h.first (by simp)).found_function hkind
  case kwIf => exact (h.first (by simp)).found_conditional hN hlength hkind

theorem Tidy.found_climb (h : Tidy l m (.climb bp) p ok log q) (hlength : log.length ≤ N)
    (hplace : p.current.kind ≠ .comma ∧ p.current.kind ≠ .closeParen) :
    (Stretch.operand bp).Found (l + 1) p ok q := by
  have hrules := h.level.standard.prefixRule?_eq
  have hinPlace := h.inPlace
  cases h.course with
  | noExpression hrule =>
    rw [hrules] at hrule
    have hstart : ¬ p.current.kind.StartsExpr ∧ p.current.kind ≠ .openParen := by
      revert hrule
      cases p.current.kind <;> simp [Kind.StartsExpr, Grammar.standardPrefixRule?]
    exact (Stretch.found_gap h.listed h.start_le hplace hstart.2 (.inl hstart.1) h.course.later
      rfl).broken
  | firstFails hrule hfirst =>
    have htidy := Tidy.mk hfirst h.level h.listed h.index_le hinPlace
    exact (htidy.found_first hN hlength (hrules ▸ hrule)).broken
  | firstRead hrule hfirst hmore =>
    simp only [List.length_append, List.forall_mem_append] at hlength hinPlace
    have htidy := Tidy.mk hfirst h.level h.listed
      (Nat.le_trans hmore.later.index_le h.index_le) hinPlace.1
    have hnext := Tidy.mk hmore (h.level.later hfirst.later) (h.listed.later hfirst.later) h.index_le
      hinPlace.2
    obtain ⟨ts, hspans, hle, hgapped⟩ := htidy.found_first hN (by omega) (hrules ▸ hrule)
    obtain ⟨us, hspans', hle', hgapped'⟩ := hnext.found_operators hN (by omega)
    refine ⟨ts ++ us, hspans.append hspans', by simp; omega, fun heq => ?_⟩
    rw [closeParens_append, openParens_append] at heq
    obtain ⟨n, hn⟩ := hgapped (by omega)
    obtain ⟨n', hn'⟩ := hgapped' (by omega)
    rw [hspans'.peek_kind hmore.later] at hn
    exact ⟨n + n', .operand hn hn'⟩

end Found

/-- **What has been read as an expression**, by induction on the length of the course. -/
theorem Tidy.found_expression {l m : Nat} {bp : Power} {p q : Parser} {ok : Bool} {log : List Event}
    (h : Tidy l m (.expression bp) p ok log q) : (Stretch.operand bp).Found l p ok q := by
  induction hlog : log.length using Nat.strong_induction_on generalizing l bp p q ok log with
  | _ n ih =>
    have hN : FoundBelow m n := fun hshort h => ih _ hshort h rfl
    have hinPlace := h.inPlace
    cases h.course with
    | refused hfull =>
      -- the token is left as it is; if it opens a parenthesis nothing is claimed
      have hplace := List.forall_mem_singleton.1 hinPlace (.inr rfl)
      have hspans := (h.listed.spans_single h.start_le).stay h.course.later rfl
      by_cases hopen : p.current.kind = .openParen
      · exact Stretch.found_of_lt hspans (by simp [hopen])
      · obtain rfl : 0 = l := h.level.levels_eq ▸ (Nat.sub_eq_zero_of_le hfull).symm
        exact ⟨[p.current], hspans, by simp [hplace, hopen],
          fun _ => ⟨1, .refused (h.listed.simple h.start_le hplace hopen)⟩⟩
    | opened hroom hinside =>
      simp only [List.forall_mem_cons, List.forall_mem_append, List.length_cons,
        List.length_append] at hinPlace hlog
      have hlevels : p.grammar.depthLimit - p.depth = l := h.level.levels_eq
      obtain ⟨l, rfl⟩ : ∃ l', l = l' + 1 := ⟨l - 1, by omega⟩
      have htidy := Tidy.mk hinside h.level.nested.2 (h.listed.withDepth _) h.index_le hinPlace.2.1
      exact (htidy.found_climb hN (by omega) (hinPlace.1 (.inl rfl))).nested

end MonkeySyntax
