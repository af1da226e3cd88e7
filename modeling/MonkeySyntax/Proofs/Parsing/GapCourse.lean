import MonkeySyntax.Proofs.Grammar.Gaps
import MonkeySyntax.Proofs.Grammar.Ready
import MonkeySyntax.Proofs.Parsing.Asking
import MonkeySyntax.Proofs.Parsing.Candid
import MonkeySyntax.Proofs.Parsing.CourseRule

/-! # Expressions with gaps are read to their end

* `Parser.Lies p ts k` — the tokens lie ahead of the parser, and one of the kind `k` behind them.
* `Event.InPlace`, **`Passes routine p last ok gaps`** — the routine leads to the token with the number
  `last`, reports a number of gaps, and asks for no expression at a comma or a closing parenthesis.
* `passes_opened`, `passes_operand`, … — the same step by step.
* **`Gapped.passes`** — a text with gaps is read to its end. -/

namespace MonkeySyntax

open Parsing

/-! ### Tokens ahead -/

/-- **The tokens lie ahead**, from the current one on, and then one of the kind `k`. -/
def Parser.Lies (p : Parser) (ts : List Token) (k : Kind) : Prop :=
  ∃ t us, p.rest = ts ++ t :: us ∧ t.kind = k

namespace Parser.Lies

variable {p q : Parser} {t : Token} {ts us : List Token} {k : Kind}

theorem current (h : p.Lies (t :: ts) k) : p.current = t := by
  obtain ⟨u, vs, hrest, -⟩ := h
  exact current_of_rest hrest

theorem current_kind (h : p.Lies ts k) : p.current.kind = kindAhead ts k := by
  obtain ⟨t, us, hrest, rfl⟩ := h
  cases ts with
  | nil => rw [current_of_rest hrest, kindAhead_nil]
  | cons u ts => rw [current_of_rest hrest, kindAhead_cons]

/-- The token ahead is the first of those behind the current one. -/
theorem peek_kind (h : p.advance.Lies ts k) : p.peek.kind = kindAhead ts k := by
  rw [← current_advance, h.current_kind]

theorem advance (h : p.Lies (t :: ts) k) : p.advance.Lies ts k := by
  obtain ⟨u, vs, hrest, hk⟩ := h
  exact ⟨u, vs, by rw [rest_advance, hrest, List.cons_append, List.tail_cons], hk⟩

/-- The first part of the tokens lies ahead, and then the second one. -/
theorem left (h : p.Lies (ts ++ us) k) : p.Lies ts (kindAhead us k) := by
  obtain ⟨t, vs, hrest, hk⟩ := h
  cases us with
  | nil => exact ⟨t, vs, by simpa using hrest, hk⟩
  | cons u us => exact ⟨u, us ++ t :: vs, by simpa using hrest, rfl⟩

/-- Behind the last token of the first part the second one lies ahead. -/
theorem behind (h : p.Lies (ts ++ us) k) (htokens : q.tokens = p.tokens)
    (hlast : q.index + 1 = p.index + ts.length) : q.advance.Lies us k := by
  obtain ⟨t, vs, hrest, hk⟩ := h
  refine ⟨t, vs, ?_, hk⟩
  rw [rest, advance_index, hlast, advance_tokens, htokens, ← List.drop_drop, ← rest, hrest,
    List.append_assoc, List.drop_left]

end Parser.Lies

/-! ### Courses that report gaps -/

/-- No expression is asked for at a comma or at a closing parenthesis. -/
def Event.InPlace (e : Event) : Prop :=
  e.Asks → e.before.current.kind ≠ .comma ∧ e.before.current.kind ≠ .closeParen

theorem Event.inPlace_of_not_asks {e : Event} (h : ¬ e.Asks) : e.InPlace :=
  fun hasks => absurd hasks h

/-- **The routine leads to the token with the number `last`**, gives a value or not, and reports so many
gaps. On the way no expression is asked for at a comma or at a closing parenthesis. -/
def Passes (routine : Routine) (p : Parser) (last : Nat) (ok : Bool) (gaps : Nat) : Prop :=
  ∃ log q, Course (fun _ => True) routine p ok log q ∧ q.index = last ∧
    q.diagnostics.size = p.diagnostics.size + gaps ∧ ∀ e ∈ log, e.InPlace

section Passes

variable {p : Parser} {power : Power} {opener last last' m n : Nat} {whole ok : Bool}
  {parts : List Part}

/-- One step that asks for no expression comes first. -/
theorem inPlace_cons {step : Step} {log : List Event} (hstep : ¬ Event.Asks ⟨p, step⟩)
    (h : ∀ e ∈ log, e.InPlace) : ∀ e ∈ ⟨p, step⟩ :: log, e.InPlace :=
  List.forall_mem_cons.2 ⟨Event.inPlace_of_not_asks hstep, h⟩

/-- Nothing but a diagnostic. -/
theorem passes_report {routine : Routine} {cause : Cause} {place opener : Nat}
    (h : Course (fun _ => True) routine p false [⟨p, .report cause place opener⟩]
      (p.report cause (p.tokenAt place))) : Passes routine p p.index false 1 :=
  ⟨_, _, h, rfl, by simp, inPlace_cons (by simp) (by simp)⟩

theorem passes_done (opener : Nat) (whole : Bool) (p : Parser) :
    Passes (.rest opener whole []) p p.index whole 0 :=
  ⟨_, _, .done, rfl, rfl, by simp⟩

theorem passes_refused (hfull : p.grammar.depthLimit ≤ p.depth)
    (hp : p.current.kind ≠ .comma ∧ p.current.kind ≠ .closeParen) :
    Passes (.expression power) p p.index false 1 :=
  ⟨_, _, .refused hfull, rfl, by simp, List.forall_mem_singleton.2 fun _ => hp⟩

theorem passes_opened (hroom : p.depth < p.grammar.depthLimit)
    (hp : p.current.kind ≠ .comma ∧ p.current.kind ≠ .closeParen)
    (h : Passes (.climb power) (p.withDepth (p.depth + 1)) last ok n) :
    Passes (.expression power) p last ok n := by
  obtain ⟨log, q, hcourse, hindex, hsize, hlog⟩ := h
  refine ⟨_, _, .opened hroom hcourse, hindex, hsize, ?_⟩
  simp only [List.forall_mem_cons, List.forall_mem_append]
  exact ⟨fun _ => hp, hlog, Event.inPlace_of_not_asks (by simp), by simp⟩

theorem passes_firstFails {rule : PrefixRule} (hrule : p.grammar.prefixRule? p.current.kind = some rule)
    (h : Passes (.first rule) p last false n) : Passes (.climb power) p last false n := by
  obtain ⟨log, q, hcourse, h⟩ := h
  exact ⟨log, q, .firstFails hrule hcourse, h⟩

theorem passes_firstRead {rule : PrefixRule} (hrule : p.grammar.prefixRule? p.current.kind = some rule)
    (hfirst : Passes (.first rule) p last true m)
    (hmore : ∀ q, Parser.Later p q → q.index = last → Passes (.operators power) q last' ok n) :
    Passes (.climb power) p last' ok (m + n) := by
  obtain ⟨log, q, hcourse, hindex, hsize, hlog⟩ := hfirst
  obtain ⟨log', r, hcourse', hindex', hsize', hlog'⟩ := hmore q hcourse.later hindex
  exact ⟨_, _, .firstRead hrule hcourse hcourse', hindex', by omega,
    List.forall_mem_append.2 ⟨hlog, hlog'⟩⟩

theorem passes_operatorsEnd (h : p.operatorAhead? power = none) :
    Passes (.operators power) p p.index true 0 :=
  ⟨_, _, .operatorsEnd h, rfl, rfl, by simp⟩

theorem passes_operatorFails {op : Operator} (hoperator : p.operatorAhead? power = some op)
    (h : Passes (.rest p.advance.index true (op.rule.parts op.power)) p.advance last false n) :
    Passes (.operators power) p last false n := by
  obtain ⟨log, q, hcourse, hindex, hsize, hlog⟩ := h
  exact ⟨_, _, .operatorFails hoperator hcourse, hindex, by simpa using hsize,
    inPlace_cons (by simp) hlog⟩

theorem passes_operatorRead {op : Operator} (last : Nat) (hoperator : p.operatorAhead? power = some op)
    (hrest : Passes (.rest p.advance.index true (op.rule.parts op.power)) p.advance last true m)
    (hmore : ∀ q, Parser.Later p.advance q → q.index = last → Passes (.operators power) q last' ok n) :
    Passes (.operators power) p last' ok (m + n) := by
  obtain ⟨log, q, hcourse, hindex, hsize, hlog⟩ := hrest
  obtain ⟨log', r, hcourse', hindex', hsize', hlog'⟩ := hmore q hcourse.later hindex
  rw [Parser.advance_diagnostics] at hsize
  exact ⟨_, _, .operatorRead hoperator hcourse hcourse', hindex', by omega,
    inPlace_cons (by simp) (List.forall_mem_append.2 ⟨hlog, hlog'⟩)⟩

theorem passes_required {kind : Kind} (hkind : kind ≠ .eof) (hpeek : p.peek.kind = kind)
    (h : Passes (.rest opener whole parts) p.advance last ok n) :
    Passes (.rest opener whole (.require kind :: parts)) p last ok n := by
  obtain ⟨log, q, hcourse, hindex, hsize, hlog⟩ := h
  exact ⟨_, _, .required hkind hpeek hcourse, hindex, by simpa using hsize,
    inPlace_cons (by simp) hlog⟩

theorem passes_passed {kind : Kind} (hkind : kind ≠ .eof) (hpeek : p.peek.kind = kind)
    (h : Passes (.rest opener whole parts) p.advance last ok n) :
    Passes (.rest opener whole (.pass kind :: parts)) p last ok n := by
  obtain ⟨log, q, hcourse, hindex, hsize, hlog⟩ := h
  exact ⟨_, _, .passed hkind hpeek hcourse, hindex, by simpa using hsize,
    inPlace_cons (by simp) hlog⟩

theorem passes_operand {spoilt found : Bool} (last : Nat)
    (hvalue : Passes (.expression power) p.advance last found m)
    (hrest : ∀ q, Parser.Later p.advance q → q.index = last →
      Passes (.rest opener (whole && (found || !spoilt)) parts) q last' ok n) :
    Passes (.rest opener whole (.operand spoilt power :: parts)) p last' ok (m + n) := by
  obtain ⟨log, q, hcourse, hindex, hsize, hlog⟩ := hvalue
  obtain ⟨log', r, hcourse', hindex', hsize', hlog'⟩ := hrest q hcourse.later hindex
  rw [Parser.advance_diagnostics] at hsize
  exact ⟨_, _, .operand trivial hcourse hcourse', hindex', by omega,
    inPlace_cons (by simp) (List.forall_mem_append.2 ⟨hlog, hlog'⟩)⟩

theorem passes_branch {b : Branch} {next : List Part} (hnext : b.parts p = next)
    (h : Passes (.rest opener whole (next ++ parts)) p last ok n) :
    Passes (.rest opener whole (.branch b :: parts)) p last ok n := by
  obtain ⟨log, q, hcourse, h⟩ := h
  exact ⟨log, q, .branch (hnext ▸ hcourse), h⟩

/-- An operand at the end of a rule, without which the rule gives a value all the same. -/
theorem passes_lastOperand {found : Bool} (h : Passes (.expression power) p.advance last found n) :
    Passes (.rest opener true [.operand false power]) p last true n :=
  passes_operand last (n := 0) h fun q _ hindex => by simpa [hindex] using passes_done opener true q

end Passes

/-! ### First parts -/

/-- A first part that is whole is read by its rule; any other one is not continued. -/
def FirstPasses (p : Parser) (last : Nat) : Bool → Nat → Prop
  | true, n => ∃ rule, p.grammar.prefixRule? p.current.kind = some rule ∧
      Passes (.first rule) p last true n
  | false, n => ∀ power, Passes (.climb power) p last false n

section FirstPasses

variable {p : Parser} {last n : Nat} {w : Bool} {rule : PrefixRule} {t : Token} {ts : List Token}
  {k : Kind}

theorem firstPasses_of_first (hrule : p.grammar.prefixRule? p.current.kind = some rule)
    (h : Passes (.first rule) p last w n) : FirstPasses p last w n := by
  cases w with
  | true => exact ⟨rule, hrule, h⟩
  | false => exact fun power => passes_firstFails hrule h

/-- A first part is read by its rule. -/
theorem firstPasses_of_rest (rule : PrefixRule) (hp : p.Standard) (h : p.Lies (t :: ts) k)
    (hrule : Grammar.standardPrefixRule? t.kind = some rule)
    (hvalue : rule = .integer → integerValue? t.text ≠ none)
    (hrest : Passes (.rest p.index true rule.parts) p last w n) : FirstPasses p last w n := by
  obtain ⟨log, q, hcourse, hrest⟩ := hrest
  exact firstPasses_of_first (by rwa [hp.prefixRule?_eq, h.current])
    ⟨log, q, .first (by rwa [h.current]) hcourse, hrest⟩

/-- **At a gap one diagnostic is reported**, and the parser stays there. -/
theorem firstPasses_gap (hp : p.Standard) (ht : t.IsGap k) (h : p.Lies [t] k) :
    FirstPasses p p.index false 1 := by
  have hpeek : p.peek.kind = k := h.advance.peek_kind
  rcases ht.fails with hstart | ⟨hkind, hvalue⟩ | ⟨hkind, hk⟩
  · have hrule : p.grammar.prefixRule? p.current.kind = none := by
      rw [hp.prefixRule?_eq, h.current]
      revert hstart
      cases t.kind <;> simp [Kind.StartsExpr, Grammar.standardPrefixRule?]
    exact fun power => passes_report (.noExpression hrule)
  · have hrule : p.grammar.prefixRule? p.current.kind = some .integer := by
      rw [hp.prefixRule?_eq, h.current, hkind]
      rfl
    exact firstPasses_of_first hrule (passes_report (.invalidInteger (by rw [h.current, hvalue])))
  · -- both rules require a parenthesis first
    have hmissing (parts : List Part) :
        Passes (.rest p.index true (.require .openParen :: parts)) p p.index false 1 :=
      passes_report (.missing (hpeek ▸ hk))
    rcases hkind with hkind | hkind
    · exact firstPasses_of_rest .conditional hp h (by rw [hkind]; rfl) (by simp) (hmissing _)
    · exact firstPasses_of_rest .function hp h (by rw [hkind]; rfl) (by simp) (hmissing _)

theorem firstPasses_atom (hp : p.Standard) (ht : t.IsAtom) (h : p.Lies [t] k) :
    FirstPasses p p.index true 0 := by
  have hrest (rule : PrefixRule) (hparts : rule.parts = []) :
      Passes (.rest p.index true rule.parts) p p.index true 0 := hparts ▸ passes_done _ _ p
  rcases ht with hkind | ⟨hkind, hvalue⟩
  · simp only [List.mem_cons, List.not_mem_nil, or_false] at hkind
    rcases hkind with hkind | hkind
    · exact firstPasses_of_rest .identifier hp h (by rw [hkind]; rfl) (by simp) (hrest _ rfl)
    · exact firstPasses_of_rest .boolean hp h (by rcases hkind with hkind | hkind <;> rw [hkind] <;> rfl)
        (by simp) (hrest _ rfl)
  · exact firstPasses_of_rest .integer hp h (by rw [hkind]; rfl) (fun _ => hvalue) (hrest _ rfl)

end FirstPasses

/-! ### Texts with gaps -/

/-- **How a text with gaps is passed** where it lies ahead, by the routine of its place. -/
def Stretch.Passed (l : Nat) (ts : List Token) (k : Kind) (w : Bool) (n : Nat) : Stretch → Prop
  | operand bp => ∀ {p last}, p.OnLevel l → p.Lies ts k → last + 1 = p.index + ts.length →
      Passes (.expression bp) p last w n
  | first => ∀ {p last}, p.OnLevel l → p.Lies ts k → last + 1 = p.index + ts.length →
      FirstPasses p last w n
  | more bp => ∀ {p last}, p.OnLevel l → p.advance.Lies ts k → last = p.index + ts.length →
      Passes (.operators bp) p last w n
  | arguments => ∀ {p last opener whole}, p.OnLevel l → p.advance.Lies ts k →
      last = p.index + ts.length + 1 →
      Passes (.rest opener whole [.branch .arguments]) p last (whole && w) n
  | furtherArguments => ∀ {p last opener whole}, p.OnLevel l → p.advance.Lies ts k →
      last = p.index + ts.length + 1 →
      Passes (.rest opener whole [.branch .furtherArguments]) p last (whole && w) n

section Passed

variable {l m n : Nat} {bp pow : Power} {o c t : Token} {ts us : List Token} {k : Kind} {v w : Bool}

/-- Where an expression with gaps lies ahead one may be asked for. -/
theorem Parser.Lies.current_ne {p : Parser} (h : p.Lies ts k) (hts : (Stretch.operand bp).Begins ts) :
    p.current.kind ≠ .comma ∧ p.current.kind ≠ .closeParen := by
  obtain ⟨t, us, rfl, ht⟩ := hts
  rwa [h.current]

/-- One level is taken by an expression. -/
theorem Parser.OnLevel.nested {p : Parser} (h : p.OnLevel (l + 1)) :
    p.depth < p.grammar.depthLimit ∧ (p.withDepth (p.depth + 1)).OnLevel l := by
  have hlevels : p.grammar.depthLimit - p.depth = l + 1 := h.levels_eq
  refine ⟨by omega, h.standard.withDepth _, ?_⟩
  show p.grammar.depthLimit - (p.depth + 1) = l
  omega

theorem passed_refused (ht : t.kind.Simple) : (Stretch.operand bp).Passed 0 [t] k false 1 := by
  intro p last hp h hlast
  obtain rfl : p.index = last := (Nat.succ.inj hlast).symm
  have htext : Gapped 0 (.operand bp) [t] k false 1 := .refused ht
  exact passes_refused (Nat.sub_eq_zero_iff_le.1 hp.levels_eq) (h.current_ne htext.begins)

theorem passed_operand (hts : (Stretch.operand bp).Begins ts)
    (hfirst : Stretch.first.Passed l ts (kindAhead us k) true m)
    (hmore : (Stretch.more bp).Passed l us k w n) :
    (Stretch.operand bp).Passed (l + 1) (ts ++ us) k w (m + n) := by
  intro p last hp h hlast
  obtain ⟨hroom, hinside⟩ := hp.nested
  have hlength : (ts ++ us).length = ts.length + us.length := List.length_append
  -- the last token of the first part
  obtain ⟨middle, hmiddle⟩ : ∃ middle, middle + 1 = p.index + ts.length := by
    obtain ⟨t, vs, rfl, -⟩ := hts
    exact ⟨p.index + vs.length, rfl⟩
  have hlies : (p.withDepth (p.depth + 1)).Lies (ts ++ us) k := h
  obtain ⟨rule, hrule, hread⟩ := hfirst hinside hlies.left hmiddle
  refine passes_opened hroom (h.left.current_ne hts) (passes_firstRead hrule hread fun q hq hindex => ?_)
  exact hmore (hinside.later hq) (hlies.behind hq.tokens_eq (hindex.symm ▸ hmiddle)) (by omega)

theorem passed_broken (hts : (Stretch.operand bp).Begins ts)
    (hfirst : Stretch.first.Passed l ts k false n) :
    (Stretch.operand bp).Passed (l + 1) ts k false n := by
  intro p last hp h hlast
  obtain ⟨hroom, hinside⟩ := hp.nested
  exact passes_opened hroom (h.current_ne hts) (hfirst hinside h hlast bp)

theorem passed_grouping (ho : o.kind = .openParen)
    (hts : (Stretch.operand .lowest).Passed l ts .closeParen w n) (hne : ts ≠ [])
    (hc : c.kind = .closeParen) : Stretch.first.Passed l (o :: (ts ++ [c])) k w n := by
  intro p last hp h hlast
  have hlength : (o :: (ts ++ [c])).length = ts.length + 2 := by simp
  have hpos := List.length_pos_iff.2 hne
  have hinner : p.advance.Lies (ts ++ [c]) k := h.advance
  have hleft : p.advance.Lies ts .closeParen := by simpa [hc] using hinner.left
  refine firstPasses_of_rest .grouping hp.standard h (by rw [ho]; rfl) (by simp) ?_
  refine passes_operand (p.index + ts.length) (n := 0)
    (hts hp.advance hleft (by rw [Parser.advance_index]; omega)) fun q hq hindex => ?_
  -- the value is left at its last token, so the parenthesis comes next
  have hclose : q.advance.Lies [c] k :=
    hinner.behind hq.tokens_eq (by rw [Parser.advance_index]; omega)
  refine passes_required (by decide) (hclose.peek_kind.trans hc) ?_
  have hend : last = q.advance.index := by rw [Parser.advance_index]; omega
  subst hend
  simpa using passes_done p.index (true && (w || !true)) q.advance

theorem passed_prefixOp (ho : o.kind = .bang ∨ o.kind = .minus)
    (hts : (Stretch.operand .unary).Passed l ts k w n) :
    Stretch.first.Passed l (o :: ts) k true n := by
  intro p last hp h hlast
  rw [List.length_cons] at hlast
  exact firstPasses_of_rest .unary hp.standard h (by rcases ho with ho | ho <;> rw [ho] <;> rfl)
    (by simp) (passes_lastOperand
      (hts hp.advance h.advance (by rw [Parser.advance_index]; omega)))

/-- Where no block comes next a rule stops that requires one. -/
theorem passes_blockMissing {p : Parser} {opener : Nat} {whole : Bool} {parts : List Part}
    (hpeek : p.peek.kind ≠ .openBrace) :
    Passes (.rest opener whole (.block :: parts)) p p.index false 1 :=
  passes_report (.blockMissing hpeek)

theorem passed_conditional (hi : t.kind = .kwIf) (ho : o.kind = .openParen)
    (hts : (Stretch.operand .lowest).Passed l ts .closeParen w n) (hne : ts ≠ [])
    (hc : c.kind = .closeParen) (hk : k ≠ .openBrace) :
    Stretch.first.Passed l (t :: o :: (ts ++ [c])) k false (n + 1) := by
  intro p last hp h hlast
  have hlength : (t :: o :: (ts ++ [c])).length = ts.length + 3 := by simp
  have hpos := List.length_pos_iff.2 hne
  have hinner : p.advance.advance.Lies (ts ++ [c]) k := h.advance.advance
  have hleft : p.advance.advance.Lies ts .closeParen := by simpa [hc] using hinner.left
  have hstart : p.advance.advance.index = p.index + 2 := by simp
  refine firstPasses_of_rest .conditional hp.standard h (by rw [hi]; rfl) (by simp) ?_
  refine passes_required (by decide) (h.advance.peek_kind.trans ho) ?_
  refine passes_operand (p.index + 1 + ts.length)
    (hts hp.advance.advance hleft (by omega)) fun q hq hindex => ?_
  have hclose : q.advance.Lies [c] k :=
    hinner.behind (by simpa using hq.tokens_eq) (by omega)
  refine passes_required (by decide) (hclose.peek_kind.trans hc) ?_
  have hend : last = q.advance.index := by rw [Parser.advance_index]; omega
  subst hend
  exact passes_blockMissing (hclose.advance.peek_kind ▸ hk)

/-- Parameters and the closing parenthesis behind them, from behind the first of them on. -/
theorem passes_furtherParameters {p : Parser} {last opener : Nat} {whole ok : Bool} {parts : List Part}
    {is : List Identifier} (his : Derives (.furtherParameters is) ts m)
    (h : p.advance.Lies (ts ++ [c]) k) (hc : c.kind = .closeParen)
    (hmore : ∀ q, Parser.Later p q → q.index = p.index + ts.length + 1 →
      Passes (.rest opener whole parts) q last ok n) :
    Passes (.rest opener whole (.branch .furtherParameters :: parts)) p last ok n := by
  generalize hphrase : Phrase.furtherParameters is = phrase at his
  induction his generalizing p is with
  | lastParameter =>
    have hpeek : p.peek.kind = .closeParen := h.peek_kind.trans hc
    refine passes_branch (if_neg (peekIs_iff.not.2 (by simp [hpeek]))) (passes_required (by decide) hpeek ?_)
    exact hmore _ (Parser.later_advance p) (by simp)
  | @furtherParameter d u _ vs hd hu _ ih =>
    have hpeek : p.peek.kind = .comma := h.peek_kind.trans hd
    refine passes_branch (if_pos (peekIs_iff.2 hpeek)) (passes_passed (by decide) hpeek ?_)
    refine passes_required (by decide) (h.advance.peek_kind.trans hu) ?_
    refine ih h.advance.advance (fun q hq hindex => ?_) rfl
    refine hmore q ((Parser.later_advance p).trans ((Parser.later_advance _).trans hq)) ?_
    simp at hindex ⊢
    omega
  | _ => cases hphrase

theorem passes_parameters {p : Parser} {last opener : Nat} {whole ok : Bool} {parts : List Part}
    {is : List Identifier} (his : Derives (.parameters is) ts 0)
    (h : p.advance.Lies (ts ++ [c]) k) (hc : c.kind = .closeParen)
    (hmore : ∀ q, Parser.Later p q → q.index = p.index + ts.length + 1 →
      Passes (.rest opener whole parts) q last ok n) :
    Passes (.rest opener whole (.branch .parameters :: parts)) p last ok n := by
  cases his with
  | noParameters =>
    have hpeek : p.peek.kind = .closeParen := h.peek_kind.trans hc
    refine passes_branch (if_pos (peekIs_iff.2 hpeek)) (passes_passed (by decide) hpeek ?_)
    exact hmore _ (Parser.later_advance p) (by simp)
  | parameters ht his =>
    have hpeek : p.peek.kind = .identifier := h.peek_kind.trans ht
    refine passes_branch (if_neg (peekIs_iff.not.2 (by simp [hpeek]))) (passes_required (by decide) hpeek ?_)
    refine passes_furtherParameters his h.advance hc fun q hq hindex => ?_
    refine hmore q ((Parser.later_advance p).trans hq) ?_
    simp at hindex ⊢
    omega

theorem passed_function {is : List Identifier} (hf : t.kind = .kwFn) (ho : o.kind = .openParen)
    (his : Derives (.parameters is) ts 0) (hc : c.kind = .closeParen) (hk : k ≠ .openBrace) :
    Stretch.first.Passed l (t :: o :: (ts ++ [c])) k false 1 := by
  intro p last hp h hlast
  have hlength : (t :: o :: (ts ++ [c])).length = ts.length + 3 := by simp
  have hinner : p.advance.advance.Lies (ts ++ [c]) k := h.advance.advance
  refine firstPasses_of_rest .function hp.standard h (by rw [hf]; rfl) (by simp) ?_
  refine passes_required (by decide) (h.advance.peek_kind.trans ho) ?_
  refine passes_parameters his hinner hc fun q hq hindex => ?_
  rw [Parser.advance_index] at hindex
  have hend : p.advance.advance.Lies (ts ++ [c] ++ []) k := by rwa [List.append_nil]
  have hbehind : q.advance.Lies [] k := hend.behind (by simpa using hq.tokens_eq) (by simp; omega)
  obtain rfl : last = q.index := by omega
  exact passes_blockMissing (hbehind.peek_kind ▸ hk)

theorem passed_done (hk : Grammar.standard.power k ≤ bp) : (Stretch.more bp).Passed l [] k true 0 := by
  rintro p last hp h rfl
  exact passes_operatorsEnd (Parser.operatorAhead?_eq_none hp.standard (by rwa [h.peek_kind]))

theorem passed_infixOp (ho : o.kind.binaryPower? = some pow) (hlt : bp < pow) (hne : ts ≠ [])
    (hts : (Stretch.operand pow).Passed l ts (kindAhead us k) v m)
    (hus : (Stretch.more bp).Passed l us k w n) :
    (Stretch.more bp).Passed l (o :: (ts ++ us)) k w (m + n) := by
  rintro p last hp h rfl
  have hlength : (o :: (ts ++ us)).length = ts.length + us.length + 1 := by simp
  have hpos := List.length_pos_iff.2 hne
  have hpeek : p.peek.kind = o.kind := h.peek_kind
  have hoperand := h.advance
  have hstart : p.advance.advance.index = p.index + 2 := by simp
  -- the operand stops before what continues the whole, whether it has been read or not
  refine passes_operatorRead (p.index + 1 + ts.length)
    (Parser.operatorAhead?_binary hp.standard (hpeek ▸ ho) hlt)
    (passes_lastOperand (hts hp.advance.advance hoperand.left (by omega))) fun q hq hindex => ?_
  have htokens : q.tokens = p.advance.advance.tokens := by simpa using hq.tokens_eq
  exact hus (hp.advance.later hq) (hoperand.behind htokens (by omega)) (by omega)

theorem passed_call (ho : o.kind = .openParen) (hlt : bp < .call)
    (hts : Stretch.arguments.Passed l ts .closeParen true m) (hc : c.kind = .closeParen)
    (hus : (Stretch.more bp).Passed l us k w n) :
    (Stretch.more bp).Passed l (o :: (ts ++ c :: us)) k w (m + n) := by
  rintro p last hp h rfl
  have hlength : (o :: (ts ++ c :: us)).length = ts.length + us.length + 2 := by simp; omega
  have hpeek : p.peek.kind = o.kind := h.peek_kind
  -- the closing parenthesis belongs to the call, not to what continues it
  have hlist : p.advance.advance.Lies (ts ++ [c] ++ us) k := by simpa using h.advance
  have hstart : p.advance.advance.index = p.index + 2 := by simp
  refine passes_operatorRead (p.index + ts.length + 2)
    (Parser.operatorAhead?_call hp.standard (hpeek.trans ho) hlt)
    (hts hp.advance (by simpa [hc] using hlist.left.left) (by rw [Parser.advance_index]; omega))
    fun q hq hindex => ?_
  have htokens : q.tokens = p.advance.advance.tokens := by simpa using hq.tokens_eq
  exact hus (hp.advance.later hq) (hlist.behind htokens (by rw [List.length_append]; simp; omega))
    (by omega)

theorem passed_brokenCall (ho : o.kind = .openParen) (hlt : bp < .call)
    (hts : Stretch.arguments.Passed l ts .closeParen false n) (hc : c.kind = .closeParen) :
    (Stretch.more bp).Passed l (o :: (ts ++ [c])) k false n := by
  rintro p last hp h rfl
  have hpeek : p.peek.kind = o.kind := h.peek_kind
  exact passes_operatorFails (Parser.operatorAhead?_call hp.standard (hpeek.trans ho) hlt)
    (hts hp.advance (by simpa [hc] using h.advance.left) (by simp; omega))

/-! ### Arguments -/

theorem passed_noArguments : Stretch.arguments.Passed l [] .closeParen true 0 := by
  rintro p last opener whole hp h rfl
  have hpeek : p.peek.kind = .closeParen := h.peek_kind
  refine passes_branch (if_pos (peekIs_iff.2 hpeek)) (passes_passed (by decide) hpeek ?_)
  simpa using passes_done opener whole p.advance

/-- An argument and the others, behind the parenthesis or the comma before it. -/
theorem passes_argument {p : Parser} {last opener : Nat} {whole : Bool} (hne : ts ≠ [])
    (hts : (Stretch.operand .lowest).Passed l ts (kindAhead us .closeParen) v m)
    (hus : Stretch.furtherArguments.Passed l us .closeParen w n) (hp : p.OnLevel l)
    (h : p.advance.Lies (ts ++ us) .closeParen) (hlast : last = p.index + (ts ++ us).length + 1) :
    Passes (.rest opener whole [.operand true .lowest, .branch .furtherArguments]) p last
      (whole && (v && w)) (m + n) := by
  have hpos := List.length_pos_iff.2 hne
  rw [List.length_append] at hlast
  refine passes_operand (p.index + ts.length)
    (hts hp.advance h.left (by rw [Parser.advance_index]; omega)) fun q hq hindex => ?_
  have hread : Passes (.rest opener (whole && (v || !true)) [.branch .furtherArguments]) q last
      (whole && (v || !true) && w) n :=
    hus (hp.advance.later hq) (h.behind hq.tokens_eq (by rw [Parser.advance_index]; omega)) (by omega)
  simpa [Bool.and_assoc] using hread

theorem passed_arguments (hbegins : (Stretch.operand .lowest).Begins ts)
    (hts : (Stretch.operand .lowest).Passed l ts (kindAhead us .closeParen) v m)
    (hus : Stretch.furtherArguments.Passed l us .closeParen w n) :
    Stretch.arguments.Passed l (ts ++ us) .closeParen (v && w) (m + n) := by
  rintro p last opener whole hp h hlast
  -- an expression with gaps never begins with the parenthesis, so the list is not taken for empty
  have hopen : p.peek.kind ≠ .closeParen := by
    rw [← Parser.current_advance]
    exact (h.left.current_ne hbegins).2
  obtain ⟨t, vs, hvs, -⟩ := hbegins
  exact passes_branch (if_neg (peekIs_iff.not.2 hopen))
    (passes_argument (hvs ▸ List.cons_ne_nil t vs) hts hus hp h hlast)

theorem passed_lastArgument : Stretch.furtherArguments.Passed l [] .closeParen true 0 := by
  rintro p last opener whole hp h rfl
  have hpeek : p.peek.kind = .closeParen := h.peek_kind
  refine passes_branch (if_neg (peekIs_iff.not.2 (by simp [hpeek]))) (passes_required (by decide) hpeek ?_)
  simpa using passes_done opener whole p.advance

theorem passed_furtherArgument (hc : c.kind = .comma) (hne : ts ≠ [])
    (hts : (Stretch.operand .lowest).Passed l ts (kindAhead us .closeParen) v m)
    (hus : Stretch.furtherArguments.Passed l us .closeParen w n) :
    Stretch.furtherArguments.Passed l (c :: (ts ++ us)) .closeParen (v && w) (m + n) := by
  rintro p last opener whole hp h hlast
  have hpeek : p.peek.kind = .comma := h.peek_kind.trans hc
  rw [List.length_cons] at hlast
  exact passes_branch (if_pos (peekIs_iff.2 hpeek)) (passes_passed (by decide) hpeek
    (passes_argument hne hts hus hp.advance h.advance (by rw [Parser.advance_index]; omega)))

end Passed

/-- **A text with gaps is read to its end**: by induction on the text, with one diagnostic at each
gap. -/
theorem Gapped.passes {l n : Nat} {stretch : Stretch} {ts : List Token} {k : Kind} {w : Bool}
    (h : Gapped l stretch ts k w n) : stretch.Passed l ts k w n := by
  induction h with
  | refused ht => exact passed_refused ht
  | operand hfirst _ ih ih' => exact passed_operand hfirst.begins ih ih'
  | broken hfirst ih => exact passed_broken hfirst.begins ih
  | gap ht =>
    intro p last hp h hlast
    obtain rfl : p.index = last := (Nat.succ.inj hlast).symm
    exact firstPasses_gap hp.standard ht h
  | atom ht =>
    intro p last hp h hlast
    obtain rfl : p.index = last := (Nat.succ.inj hlast).symm
    exact firstPasses_atom hp.standard ht h
  | grouping ho hts hc ih => exact passed_grouping ho ih hts.begins.ne_nil hc
  | prefixOp ho _ ih => exact passed_prefixOp ho ih
  | conditional hi ho hts hc hk ih => exact passed_conditional hi ho ih hts.begins.ne_nil hc hk
  | function hf ho his hc hk => exact passed_function hf ho his hc hk
  | done hk => exact passed_done hk
  | infixOp ho hlt hts _ ih ih' => exact passed_infixOp ho hlt hts.begins.ne_nil ih ih'
  | call ho hlt _ hc _ ih ih' => exact passed_call ho hlt ih hc ih'
  | brokenCall ho hlt _ hc ih => exact passed_brokenCall ho hlt ih hc
  | noArguments => exact passed_noArguments
  | arguments hts _ ih ih' => exact passed_arguments hts.begins ih ih'
  | lastArgument => exact passed_lastArgument
  | furtherArgument hc hts _ ih ih' => exact passed_furtherArgument hc hts.begins.ne_nil ih ih'

end MonkeySyntax
