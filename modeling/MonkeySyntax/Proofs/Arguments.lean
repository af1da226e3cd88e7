import MonkeySyntax.Proofs.Parsing.GapSource
import MonkeySyntax.Proofs.Parsing.Progress

/-! # Where a list of arguments ends

The arguments of a call are read up to the closing parenthesis of the call if they are expressions with
gaps, whatever the gaps are. Any other list is left at some other place, or an expression is asked for
where a comma or a closing parenthesis stands.

* `Parser.listed_of_rest` — no braces up to the closing parenthesis.
* **`Course.of_gapped`**, **`Course.gapped`** — expressions with gaps are read up to there, and nothing else
  is.
* **`arguments_read_gapped`** — where the list ends, what it gives, and what is reported. -/

namespace MonkeySyntax

open Parsing ParseM

section Arguments

variable {p q : Parser} {o c : Token} {ts us : List Token} {xs : Option (List Expr)}

/-- A list without braces and semicolons, with its parentheses. -/
theorem Parser.listed_of_rest (hp : p.Standard) (hrest : p.rest = o :: (ts ++ c :: us))
    (hopen : o.kind = .openParen) (hclose : c.kind = .closeParen)
    (hts : ∀ t ∈ ts, t.kind ∉ [Kind.openBrace, .closeBrace, .semicolon, .eof]) :
    p.Listed (p.index + ts.length + 1) := by
  have hall : ∀ t ∈ o :: (ts ++ [c]), t.kind ∉ [Kind.openBrace, .closeBrace, .semicolon, .eof] := by
    simpa [hopen, hclose, or_imp, forall_and] using hts
  have hrest' : p.rest = o :: (ts ++ [c]) ++ us := by simpa using hrest
  refine ⟨hp, fun i hi him => ?_⟩
  obtain ⟨n, rfl⟩ := Nat.exists_eq_add_of_le hi
  have hn : n < (o :: (ts ++ [c])).length := by simp; omega
  rw [p.tokenAt_eq, hrest', List.getElem?_append_left hn, List.getElem?_eq_getElem hn,
    Option.getD_some]
  exact hall _ (List.getElem_mem hn)

/-- A call is its callee and what its arguments are. -/
theorem exec_call (hrun : (arguments parseExpr).exec p = (xs, q)) (left : Expr) (power : Power) :
    (infixBy parseExpr .call left power).exec p = (xs.map (.call p.current left), q) := by
  show (call parseExpr left).exec p = _
  rw [call, exec_bind_some (exec_currentToken p)]
  cases xs with
  | none => rw [exec_bind_none hrun, Option.map_none]
  | some xs => rw [exec_bind_some hrun, exec_pure, Option.map_some]

/-- **Expressions with gaps are read to the parenthesis behind them**: they have a course up to there, and
there is no other course. -/
theorem Course.of_gapped {whole ok : Bool} {gaps : Nat} {log : List Event}
    (h : Course (fun _ => True) (.rest p.index true [.branch .arguments]) p ok log q) (hp : p.Standard)
    (hrest : p.rest = o :: (ts ++ c :: us)) (hclose : c.kind = .closeParen)
    (hts : Gapped p.levels .arguments ts .closeParen whole gaps) :
    ok = whole ∧ q.index = p.index + ts.length + 1 ∧
      q.diagnostics.size = p.diagnostics.size + gaps ∧ ∀ e ∈ log, e.InPlace := by
  have hlies : p.advance.Lies ts .closeParen :=
    ⟨c, us, by rw [Parser.rest_advance, hrest, List.tail_cons], hclose⟩
  obtain ⟨log', q', hcourse, hindex, hsize, hlog⟩ :
      Passes (.rest p.index true [.branch .arguments]) p (p.index + ts.length + 1) (true && whole)
        gaps := hts.passes ⟨hp, rfl⟩ hlies rfl
  obtain ⟨hok, rfl, rfl⟩ := hcourse.unique h
  exact ⟨hok, hindex, hsize, hlog⟩

/-- **What has been read up to the parenthesis are expressions with gaps**, if every expression was asked
for in its place and no other parenthesis is open. -/
theorem Course.gapped {ok : Bool} {log : List Event}
    (h : Course (fun _ => True) (.rest p.index true [.branch .arguments]) p ok log q) (hp : p.Standard)
    (hrest : p.rest = o :: (ts ++ c :: us)) (hopen : o.kind = .openParen) (hclose : c.kind = .closeParen)
    (hts : ∀ t ∈ ts, t.kind ∉ [Kind.openBrace, .closeBrace, .semicolon, .eof])
    (hequal : openParens ts = closeParens ts) (hindex : q.index = p.index + ts.length + 1)
    (hlog : ∀ e ∈ log, e.InPlace) :
    ∃ whole gaps, Gapped p.levels .arguments ts .closeParen whole gaps := by
  have htidy := Tidy.mk h ⟨hp, rfl⟩ (p.listed_of_rest hp hrest hopen hclose hts)
    (Nat.le_of_eq hindex) hlog
  obtain ⟨read, hspans, -, hgapped⟩ :=
    htidy.found_arguments (fun _ h => h.found_expression) (Nat.le_refl log.length)
  -- what has been read ends where the list does, so it is the list with its parenthesis
  have hread : ts ++ [c] ++ us = read ++ q.advance.rest := by
    rw [← hspans.rest_eq, Parser.rest_advance, hrest, List.tail_cons, List.append_assoc,
      List.singleton_append]
  have hlength : (ts ++ [c]).length = read.length := by
    have hlast := hspans.last
    rw [Parser.advance_index] at hlast
    rw [List.length_append, List.length_singleton]
    omega
  obtain ⟨rfl, -⟩ := List.append_inj hread hlength
  obtain ⟨us', c', whole, gaps, hlist, -, -, hgaps⟩ := hgapped (by simp [hclose, hequal])
  obtain ⟨rfl, -⟩ := List.append_inj' hlist rfl
  exact ⟨whole, gaps, hgaps⟩

/-- **A list of arguments is read to its end** if the arguments are expressions with gaps: the closing
parenthesis behind them is the current token, one diagnostic has been added at each gap, and the call is
given if and only if all arguments are whole. It is given in any case if nothing has been reported.

There are no other lists that are read to their end argument by argument: if the list has neither braces
nor semicolons in it and as many opening as closing parentheses, and if no expression is asked for at a
comma or a closing parenthesis, then the closing parenthesis behind the list is the current token only
if the arguments are expressions with gaps. -/
theorem arguments_read_gapped (hgrammar : p.grammar = .standard) (heof : p.eof.kind = .eof)
    (hrest : p.rest = o :: (ts ++ c :: us)) (hopen : o.kind = .openParen) (hclose : c.kind = .closeParen)
    (hrun : (arguments parseExpr).exec p = (xs, q)) :
    (∀ left power, (infixBy parseExpr .call left power).exec p = (xs.map (.call o left), q)) ∧
    (∀ whole gaps, Gapped p.levels .arguments ts .closeParen whole gaps →
      xs.isSome = whole ∧ q.index = p.index + ts.length + 1 ∧ q.current = c ∧
        q.diagnostics.size = p.diagnostics.size + gaps) ∧
    (q.diagnostics.size = p.diagnostics.size → xs.isSome = true) ∧
    ((∀ t ∈ ts, t.kind ∉ [Kind.openBrace, .closeBrace, .semicolon, .eof]) → openParens ts = closeParens ts →
      ∃ log, Course (fun _ => True) (.rest p.index true [.branch .arguments]) p xs.isSome log q ∧
        ((q.index = p.index + ts.length + 1 ∧ ∀ e ∈ log, e.InPlace) ↔
          ∃ whole gaps, Gapped p.levels .arguments ts .closeParen whole gaps)) := by
  have hp := Parser.standard_of_grammar hgrammar heof
  have hreader : Reader (fun _ => True) p.levels parseExpr :=
    reader_parseExpr (fun _ _ => trivial) p.levels
  obtain ⟨log, hcourse⟩ := (hreader.follows_arguments ⟨hp, rfl⟩ trivial).course hrun
  refine ⟨fun left power => ?_, fun whole gaps h => ?_, fun hsize => ?_, fun hts hequal =>
    ⟨log, hcourse, fun ⟨hindex, hlog⟩ => ?_, fun ⟨whole, gaps, h⟩ => ?_⟩⟩
  · rw [exec_call hrun, Parser.current_of_rest hrest]
  · obtain ⟨hok, hindex, hsize, -⟩ := hcourse.of_gapped hp hrest hclose h
    refine ⟨hok, hindex, ?_, hsize⟩
    rw [Parser.current, hindex, hcourse.later.tokenAt_eq, Nat.add_assoc, p.tokenAt_eq, hrest]
    simp
  · rcases (candid_arguments candid_parseExpr).reports p with hreports | ⟨x, hx, -⟩
    · rw [hrun] at hreports
      exact absurd hsize (Nat.ne_of_gt hreports)
    · rw [hrun] at hx
      simp [show xs = some x from hx]
  · exact hcourse.gapped hp hrest hopen hclose hts hequal hindex hlog
  · obtain ⟨-, hindex, -, hlog⟩ := hcourse.of_gapped hp hrest hclose h
    exact ⟨hindex, hlog⟩

/-- Two arguments with a gap each, the second of them whole: the list is read to its end, and the call is
not given. -/
theorem arguments_read_gapped_signs :
    ((arguments parseExpr).exec
        (Parser.ofTokens .standard (tokenize "f(@, 1 + *)" "")).advance).2.index = 7 ∧
      ((arguments parseExpr).exec
        (Parser.ofTokens .standard (tokenize "f(@, 1 + *)" "")).advance).1.isSome = false := by
  let bad := Token.ofText "" 2 .illegal ['@']
  let comma := Token.ofText "" 3 .comma [',']
  let one := Token.ofText "" 5 .integer ['1']
  let plus := Token.ofText "" 7 .plus ['+']
  let star := Token.ofText "" 9 .star ['*']
  have hone : Gapped 255 .first [one] .plus true 0 := .atom (.inr ⟨rfl, by decide +kernel⟩)
  have hsum : Gapped 255 (.more .lowest) [plus, star] .closeParen true 1 :=
    .infixOp rfl (by decide) (.broken (.gap ⟨by decide, .inl (by decide)⟩)) (.done (by decide))
  have hgaps : Gapped 256 .arguments [bad, comma, one, plus, star] .closeParen false 2 :=
    .arguments (.broken (.gap ⟨by decide, .inl (by decide)⟩))
      (.furtherArgument rfl (.operand hone hsum) .lastArgument)
  have hfresh := Parser.endsAt_tokenize 256 "" "f(@, 1 + *)"
  have hlevels :
      (Parser.ofTokens .standard (tokenize "f(@, 1 + *)" "")).advance.levels = 256 := by
    decide +kernel
  have hrest : (Parser.ofTokens .standard (tokenize "f(@, 1 + *)" "")).advance.rest =
      .ofText "" 1 .openParen ['('] :: ([bad, comma, one, plus, star] ++
        .ofText "" 10 .closeParen [')'] :: [.ofText "" 11 .eof []]) := by
    decide +kernel
  obtain ⟨-, hread, -⟩ := arguments_read_gapped
    ((Parser.advance_grammar _).trans (Parser.grammar_ofTokens _ _)) hfresh.advance.standard.eof_kind
    hrest rfl rfl (Prod.eta _).symm
  obtain ⟨hnone, hindex, -, -⟩ := hread false 2 (hlevels ▸ hgaps)
  exact ⟨hindex.trans (by decide +kernel), hnone⟩

/-- Behind a number another one is no gap: the list is not read to its end. -/
theorem arguments_not_always_read :
    ¬ ∀ (p : Parser) (o c : Token) (ts us : List Token), p.grammar = .standard → p.eof.kind = .eof →
      p.depth < 256 → p.rest = o :: (ts ++ c :: us) → o.kind = .openParen → c.kind = .closeParen →
      (∀ t ∈ ts, t.kind ∉ [Kind.openParen, .closeParen, .openBrace, .closeBrace, .semicolon, .eof]) →
      (∀ xs ∈ ts.splitOnP (·.kind = .comma), xs ≠ []) →
        ((arguments parseExpr).exec p).2.index = p.index + ts.length + 1 ∧
          (((arguments parseExpr).exec p).1.isSome = true ↔
            ((arguments parseExpr).exec p).2.diagnostics = p.diagnostics) := by
  intro h
  have hfresh := Parser.endsAt_tokenize 256 "" "f(1 2, 3)"
  have hrest : (Parser.ofTokens .standard (tokenize "f(1 2, 3)" "")).advance.rest =
      .ofText "" 1 .openParen ['('] :: ([.ofText "" 2 .integer ['1'], .ofText "" 4 .integer ['2'],
        .ofText "" 5 .comma [','], .ofText "" 7 .integer ['3']] ++
        .ofText "" 8 .closeParen [')'] :: [.ofText "" 9 .eof []]) := by
    decide +kernel
  have hends := (h _ _ _ _ _ ((Parser.advance_grammar _).trans (Parser.grammar_ofTokens _ _))
    hfresh.advance.standard.eof_kind (by decide +kernel) hrest rfl rfl (by decide) (by decide)).1
  exact absurd hends (by decide +kernel)

end Arguments

end MonkeySyntax
