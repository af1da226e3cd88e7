import MonkeySyntax.Proofs.Grammar.Soundness
import MonkeySyntax.Proofs.Token.Spelling

/-! # The parser accepts the language of its grammar

A source is read without a diagnostic exactly when the grammar derives its tokens with no more than
256 levels; the program is then the derived one, and there is no other.

* `Derives.kind_ne` — no phrase holds the end of the source or an illegal token.
* `reads_programItems`, `sound_programItems` — the statements of a program, whatever the trace.
* **`Derives.statements_unique`** — the grammar is unambiguous, and the levels are determined too.
* **`parseTokens_accepts_iff`**, `parseAs_accepts`, `parse_accepts` — the language that is accepted;
  `parseAs_of_derives` — for a source that is one expression.
* **`parseAs_accepts_iff_derives`** — both together: acceptance and unambiguity. -/

namespace MonkeySyntax

open Parsing ParseM

/-! ### Statements of a program -/

namespace Parsing

variable {p q : Parser}

/-- Any parser of the language stands ready before what is ahead of it. -/
theorem ready_parseExpr (hp : p.Standard) : Ready parseExpr p.levels p p.rest where
  candid := candid_parseExpr
  exec_eq := by
    intro bp q hq
    rw [parseExpr, exec_bind_some (exec_get q), hq]
  standard := hp
  levels_eq := rfl
  rest_eq := rfl

theorem candid_parseStatement : Candid Given parseStatement :=
  candid_statement candid_parseExpr

/-- The parser behind a statement of a program; the trace starts anew if there was one. -/
def restart (result : Option Statement) (p : Parser) : Parser :=
  if result.isSome then p.clearTrace else p

theorem later_restart (result : Option Statement) (p : Parser) : Parser.Later p (restart result p) := by
  rw [restart]
  split
  · exact Parser.later_clearTrace p
  · exact Parser.later_refl p

/-- One statement of a program is read, and then one token more. -/
theorem exec_programItem (p : Parser) :
    programItem.exec p = (some (parseStatement.exec p).1,
      (restart (parseStatement.exec p).1 (parseStatement.exec p).2).advance) := by
  rw [programItem, exec_bind_some (exec_attempt _ p), exec_bind_some (exec_modify _ _),
    exec_bind_some (exec_advance _), exec_pure]
  rfl

theorem later_programItem (p : Parser) :
    Parser.Later (parseStatement.exec p).2 (programItem.exec p).2 := by
  rw [exec_programItem]
  exact (later_restart _ _).trans (Parser.later_advance _)

theorem candid_programItem : Candid (∃ s, · = some s ∧ Given s) programItem where
  keeps := keeps_programItem Parser.stepRelation_later Parser.later_clearTrace
  reports p := by
    have hsize := (later_programItem p).size_le
    rcases candid_parseStatement.reports p with h | ⟨s, hs, hgiven⟩
    · exact .inl (Nat.lt_of_lt_of_le h hsize)
    · exact .inr ⟨_, by rw [exec_programItem], s, hs, hgiven⟩

theorem consuming_programItem : Consuming (!currentIs .eof ·) programItem := by
  intro p hp hc a q hrun
  have hcurrent : p.current.kind ≠ .eof := by simpa [currentIs] using hc
  have hstatement := candid_parseStatement.keeps p
  have hq : q = (restart (parseStatement.exec p).1 (parseStatement.exec p).2).advance := by
    have h := congrArg Prod.snd hrun
    rw [exec_programItem] at h
    exact h.symm
  have hrestart := hstatement.trans (later_restart (parseStatement.exec p).1 _)
  have hindex := hrestart.index_le
  rw [hq]
  exact (hrestart.trans (Parser.later_advance _)).remaining_lt
    (by rw [Parser.advance_index]; exact Nat.lt_succ_of_le hindex) (hp.lt_size hcurrent)

theorem reads_programItem {o : Option Statement} :
    Reads programItem p o q ↔
      ∃ s r, o = some s ∧ Reads parseStatement p s r ∧ q = r.clearTrace.advance := by
  constructor
  · rintro ⟨hrun, hsize⟩
    have hle := (candid_parseStatement.keeps p).size_le
    have hle' := (later_programItem p).size_le
    rw [hrun] at hle'
    -- a statement that could not be read has been reported
    rcases candid_parseStatement.reports p with h | ⟨s, hs, -⟩
    · exact absurd hle' (by rw [hsize]; exact Nat.not_le.2 h)
    · rw [exec_programItem, hs, Prod.mk.injEq, Option.some.injEq] at hrun
      obtain ⟨rfl, rfl⟩ := hrun
      rw [hsize] at hle'
      exact ⟨s, _, rfl, ⟨Prod.ext hs rfl, Nat.le_antisymm hle' hle⟩, rfl⟩
  · rintro ⟨s, r, rfl, ⟨hrun, hsize⟩, rfl⟩
    refine ⟨?_, by simpa [Parser.clearTrace] using hsize⟩
    rw [exec_programItem, hrun]
    rfl

/-- **A derived program is read** when the levels suffice. -/
theorem reads_programItems {ss : List Statement} {ts us : List Token} {c : Token} {n : Nat}
    {items : List (Option Statement)} (hss : Derives (.statements ss) ts n) (hp : p.Standard)
    (hrest : p.rest = ts ++ c :: us) (hc : c.kind = .eof) :
    (∃ q, Reads (collectWhile (!currentIs .eof ·) programItem) p items q) ↔
      n ≤ p.levels ∧ items = ss.map some := by
  induction ss generalizing p ts n items with
  | nil =>
    cases hss
    have hstop : (!currentIs .eof p) = false := by
      simp [currentIs, Parser.current_of_rest hrest, hc]
    constructor
    · rintro ⟨q, hq⟩
      exact ⟨Nat.zero_le _, ((reads_collectWhile_false hstop).1 hq).1⟩
    · rintro ⟨-, rfl⟩
      exact ⟨p, (reads_collectWhile_false hstop).2 ⟨rfl, rfl⟩⟩
  | cons s ss ih =>
    cases hss with
    | @statements _ _ ts ws m n hs hss hseparated =>
      have hready : Ready parseExpr p.levels p (ts ++ (ws ++ c :: us)) := by
        have h := ready_parseExpr hp
        rwa [hrest, List.append_assoc] at h
      obtain ⟨w, vs, hts, hw⟩ := hs.begins
      have hopen : (!currentIs .eof p) = true := by
        rw [hts] at hready
        simpa [currentIs, Ready.current hready] using (Kind.ne_of_startsStatement hw).2
      obtain ⟨t, vs', hws, hsemicolon, hlast⟩ := exists_separated us hss.begins hseparated
        (c := c) (by rw [hc]; decide)
      have hread (x r) := hs.read (r := x) (q := r) (hws ▸ hready) hsemicolon hlast
      -- behind the statement the trace starts anew, which leaves the tokens ahead
      let next := (p.skip (ts.length - 1)).clearTrace.advance
      have hlater : Parser.Later p next := (Parser.later_skip p _).trans
        ((Parser.later_clearTrace _).trans (Parser.later_advance _))
      have hnext : next.rest = ws ++ c :: us := by
        have h := (hready.skip_pred (by simp [hts])).rest_eq
        rw [Parser.rest_advance, Parser.rest_clearTrace, h, List.tail_cons]
      have hitems (items : List (Option Statement)) :
          (∃ q, Reads (collectWhile (!currentIs .eof ·) programItem) next items q) ↔
            n ≤ next.levels ∧ items = ss.map some := ih hss (hp.later hlater) hnext
      rw [hlater.levels_eq] at hitems
      have hround {q : Parser} : Reads (collectWhile (!currentIs .eof ·) programItem) p items q ↔ _ :=
        reads_collectWhile_true candid_programItem.keeps consuming_programItem hp hopen
      constructor
      · rintro ⟨q, hq⟩
        obtain ⟨o, r, rest, rfl, ho, hrest⟩ := hround.1 hq
        obtain ⟨x, r, rfl, hx, rfl⟩ := reads_programItem.1 ho
        obtain ⟨hm, rfl, rfl⟩ := (hread _ _).1 hx
        obtain ⟨hn, rfl⟩ := (hitems _).1 ⟨q, hrest⟩
        exact ⟨Nat.max_le.2 ⟨hm, hn⟩, rfl⟩
      · rintro ⟨hmn, rfl⟩
        obtain ⟨hm, hn⟩ := Nat.max_le.1 hmn
        obtain ⟨q, hq⟩ := (hitems _).2 ⟨hn, rfl⟩
        exact ⟨q, hround.2 ⟨some s, next, ss.map some, rfl,
          reads_programItem.2 ⟨s, _, rfl, (hread _ _).2 ⟨hm, rfl, rfl⟩, rfl⟩, hq⟩⟩

/-- **What is read as a program is derived**, up to the end of the source. -/
theorem sound_programItems {items : List (Option Statement)} (hp : p.Standard)
    (h : Reads (collectWhile (!currentIs .eof ·) programItem) p items q) :
    ∃ ss ts n, items = ss.map some ∧ Derives (.statements ss) ts n ∧ p.rest = ts ++ q.rest ∧
      q.current.kind = .eof := by
  refine Reads.collectWhile_induction (motive := fun p items q => ∃ ss ts n, items = ss.map some ∧
    Derives (.statements ss) ts n ∧ p.rest = ts ++ q.rest ∧ q.current.kind = .eof)
    candid_programItem.keeps consuming_programItem ?_ ?_ hp h
  · intro p hc
    exact ⟨[], [], 0, rfl, .noStatements, rfl, by simpa [currentIs] using hc⟩
  · rintro p o r items q hp - ho ⟨ss, us, n, rfl, hss, hrest, hclose⟩
    obtain ⟨s, r, rfl, hs, rfl⟩ := reads_programItem.1 ho
    obtain ⟨ts, m, hts, hrest', hlast⟩ := sound_statement candid_parseExpr sound_parseExpr hp hs
    rw [Parser.rest_advance, Parser.rest_clearTrace, ← Parser.rest_advance] at hrest
    exact ⟨s :: ss, ts ++ us, max m n, rfl, .statements hts hss (separated_of_power hrest hlast),
      by rw [hrest', hrest, List.append_assoc], hclose⟩

end Parsing

/-! ### Tokens that belong to no phrase -/

/-- **No phrase holds the end of the source**, nor anything illegal. -/
theorem Derives.kind_ne {phrase : Phrase} {ts : List Token} {n : Nat} (h : Derives phrase ts n) :
    ∀ t ∈ ts, t.kind ≠ .eof ∧ t.kind ≠ .illegal := by
  induction h with
  | boolean ht => rcases ht with ht | ht <;> simp [ht]
  | prefixOp ho _ ih => rcases ho with ho | ho <;> simpa [ho] using ih
  | @infixOp o _ _ _ _ _ _ _ _ _ ho _ _ ihl ihr =>
    have hkind {k : Kind} (hk : k.binaryPower? = none) : o.kind ≠ k := by
      rintro rfl
      rw [hk] at ho
      exact absurd ho (by simp)
    exact List.forall_mem_append.2 ⟨ihl, List.forall_mem_cons.2 ⟨⟨hkind rfl, hkind rfl⟩, ihr⟩⟩
  | _ => simp_all [or_imp]

theorem Derives.ne_eof {phrase : Phrase} {ts : List Token} {n : Nat} (h : Derives phrase ts n) :
    ∀ t ∈ ts, t.kind ≠ .eof :=
  fun t ht => (h.kind_ne t ht).1

theorem Derives.ne_illegal {phrase : Phrase} {ts : List Token} {n : Nat} (h : Derives phrase ts n) :
    ∀ t ∈ ts, t.kind ≠ .illegal :=
  fun t ht => (h.kind_ne t ht).2

/-! ### Whole sources -/

/-- The grammar of the language with another limit on nesting. -/
def Grammar.limited (limit : Nat) : Grammar :=
  { Grammar.standard with depthLimit := limit }

namespace Parser

variable {limit : Nat} {ts : List Token} {t : Token}

@[simp] theorem tokens_ofTokens (g : Grammar) (ts : List Token) :
    (ofTokens g ts).tokens.toList = ts := by
  simp [ofTokens]

@[simp] theorem index_ofTokens (g : Grammar) (ts : List Token) : (ofTokens g ts).index = 0 := by
  simp [ofTokens]

@[simp] theorem rest_ofTokens (g : Grammar) (ts : List Token) : (ofTokens g ts).rest = ts := by
  simp [ofTokens, rest]

@[simp] theorem levels_ofTokens (g : Grammar) (ts : List Token) :
    (ofTokens g ts).levels = g.depthLimit := by
  simp [ofTokens, levels]

@[simp] theorem diagnostics_ofTokens (g : Grammar) (ts : List Token) :
    (ofTokens g ts).diagnostics = #[] := by
  simp [ofTokens]

@[simp] theorem grammar_ofTokens (g : Grammar) (ts : List Token) : (ofTokens g ts).grammar = g := by
  simp [ofTokens]

/-- The tokens that a parser sees before it begins. -/
theorem tokenAt_ofTokens (g : Grammar) (ts : List Token) (t : Token) (i : Nat) :
    (ofTokens g (ts ++ [t])).tokenAt i = (ts ++ [t])[i]?.getD t := by
  have heof : (ofTokens g (ts ++ [t])).eof = t := by simp [ofTokens]
  have htoken := (ofTokens g (ts ++ [t])).tokenAt_eq i
  rwa [index_ofTokens, Nat.zero_add, rest_ofTokens, heof] at htoken

/-- A parser over tokens that `eof` closes follows the rules of the language. -/
theorem standard_ofTokens (ht : t.kind = .eof) : (ofTokens (.limited limit) (ts ++ [t])).Standard where
  eof_kind := by simpa [ofTokens] using ht
  prefixRule?_eq := by simp [ofTokens, Grammar.limited, Grammar.standard]
  operator?_eq := by simp [ofTokens, Grammar.limited, Grammar.standard]
  statementRule?_eq := by simp [ofTokens, Grammar.limited, Grammar.standard]

end Parser

/-- **The grammar is unambiguous**: the tokens of a program determine its tree, and the levels too. -/
theorem Derives.statements_unique {ss rs : List Statement} {ts : List Token} {m n : Nat}
    (hs : Derives (.statements ss) ts m) (hr : Derives (.statements rs) ts n) : ss = rs ∧ m = n := by
  -- with as many levels as one tree needs, its tokens are read, so the other tree is read as well
  have hle {ss rs : List Statement} {m n : Nat} (hs : Derives (.statements ss) ts m)
      (hr : Derives (.statements rs) ts n) : ss = rs ∧ n ≤ m := by
    let p := Parser.ofTokens (.limited m) (ts ++ [.endOf defaultFileName 0])
    have hp : p.Standard := Parser.standard_ofTokens rfl
    have hlevels : p.levels = m := Parser.levels_ofTokens _ _
    have hread := (reads_programItems hs hp (Parser.rest_ofTokens _ _) rfl).2
      ⟨Nat.le_of_eq hlevels.symm, rfl⟩
    obtain ⟨hn, hmap⟩ := (reads_programItems hr hp (Parser.rest_ofTokens _ _) rfl).1 hread
    rw [hlevels] at hn
    exact ⟨(List.map_inj_right fun _ _ => Option.some.inj).1 hmap, hn⟩
  exact ⟨(hle hs hr).1, Nat.le_antisymm (hle hr hs).2 (hle hs hr).2⟩

/-- What reading tokens gives, told by the loop over the statements. -/
theorem parseTokens_eq {g : Grammar} {ts : List Token} {items : List (Option Statement)} {q : Parser}
    (h : (collectWhile (!currentIs .eof ·) programItem).exec (.ofTokens g ts) = (some items, q)) :
    parseTokens g ts = ⟨⟨items.filterMap id⟩, q.diagnostics.toList⟩ := by
  rw [parseTokens, parseProgram, exec_bind_some h, exec_pure]
  rfl

/-- Where no diagnostic is left, the loop over the statements has run cleanly. -/
theorem exists_reads_of_diagnostics {g : Grammar} {ts : List Token}
    (h : (parseTokens g ts).diagnostics = []) :
    ∃ items q, Reads (collectWhile (!currentIs .eof ·) programItem) (.ofTokens g ts) items q ∧
      (parseTokens g ts).program = ⟨items.filterMap id⟩ := by
  -- a loop that has reported nothing has given a list
  have hloop : Candid _ (collectWhile (!currentIs .eof ·) programItem) :=
    candid_programItem.collectWhile
  have hsize : ((collectWhile (!currentIs .eof ·) programItem).exec
      (.ofTokens g ts)).2.diagnostics.size = 0 := by
    rcases hrun : (collectWhile (!currentIs .eof ·) programItem).exec (.ofTokens g ts)
      with ⟨_ | items, q⟩
    · rw [parseTokens, parseProgram, exec_bind_none hrun] at h
      simpa using h
    · rw [parseTokens_eq hrun] at h
      simpa using h
  rcases hloop.reports (.ofTokens g ts) with hgrow | ⟨items, hitems, -⟩
  · exact absurd hgrow (by rw [hsize]; exact Nat.not_lt_zero _)
  · refine ⟨items, _, ⟨Prod.ext hitems rfl, ?_⟩, ?_⟩
    · rw [hsize, Parser.diagnostics_ofTokens]
      rfl
    · rw [parseTokens_eq (Prod.ext hitems rfl)]

/-- **The language that is accepted**: tokens give a program and no diagnostic exactly when the
grammar derives them as that program within the limit. -/
theorem parseTokens_accepts_iff (limit : Nat) {ts : List Token} {t : Token}
    (hts : ∀ u ∈ ts, u.kind ≠ .eof) (ht : t.kind = .eof) (program : Program) :
    (parseTokens (.limited limit) (ts ++ [t])).diagnostics = [] ∧
        (parseTokens (.limited limit) (ts ++ [t])).program = program ↔
      ∃ n ≤ limit, Derives (.statements program.statements) ts n := by
  have hp : (Parser.ofTokens (.limited limit) (ts ++ [t])).Standard := Parser.standard_ofTokens ht
  have hrest := Parser.rest_ofTokens (.limited limit) (ts ++ [t])
  have hlevels : (Parser.ofTokens (.limited limit) (ts ++ [t])).levels = limit :=
    Parser.levels_ofTokens _ _
  constructor
  · rintro ⟨hdiagnostics, rfl⟩
    -- what was read up to the first `eof` is derived
    obtain ⟨items, q, hitems, hprogram⟩ := exists_reads_of_diagnostics hdiagnostics
    obtain ⟨ss, us, n, rfl, hss, hus, hclose⟩ := sound_programItems hp hitems
    -- both lists are what stands before the first `eof`
    have hsplit : ts = us := by
      have hq : ∀ u ∈ q.rest.head?, (u.kind != .eof) = false := by
        intro u hu
        obtain ⟨vs, hvs⟩ : ∃ vs, q.rest = u :: vs := by
          cases hrest : q.rest with
          | nil => exact absurd hu (by simp [hrest])
          | cons v vs => exact ⟨vs, by simp_all⟩
        simpa [Parser.current_of_rest hvs] using hclose
      have hleft : (ts ++ [t]).takeWhile (fun u => u.kind != .eof) = ts :=
        (takeWhile_append_of_head (by simpa using hts) (by simpa using ht)).1
      have hright : (us ++ q.rest).takeWhile (fun u => u.kind != .eof) = us :=
        (takeWhile_append_of_head (by simpa using hss.ne_eof) hq).1
      rw [← hleft, ← hright, ← hus, hrest]
    subst hsplit
    obtain ⟨hn, -⟩ := (reads_programItems hss hp hrest ht).1 ⟨q, hitems⟩
    rw [hprogram, filterMap_id_map_some]
    exact ⟨n, hlevels ▸ hn, hss⟩
  · rintro ⟨n, hn, hss⟩
    obtain ⟨q, hq⟩ := (reads_programItems hss hp hrest ht).2 ⟨hlevels.symm ▸ hn, rfl⟩
    have hnone : q.diagnostics.toList = [] := by
      have hsize := hq.2
      rw [Parser.diagnostics_ofTokens] at hsize
      exact List.eq_nil_of_length_eq_zero hsize
    rw [parseTokens_eq hq.1, filterMap_id_map_some]
    exact ⟨hnone, rfl⟩

/-- The tokens of a source before its end. -/
theorem exists_tokenize_eq (file source : String) :
    ∃ ts t, tokenize source file = ts ++ [t] ∧ t.kind = .eof ∧
      ∀ u ∈ ts, u.kind.Spelt u.text.toList := by
  obtain ⟨ts, hts, hspelt⟩ := tokensFrom_eq_append file 0 source.toList
  exact ⟨ts, _, hts, rfl, hspelt⟩

/-- A source is accepted when the tokens before its end are. -/
theorem parseAs_accepts (file source : String) (program : Program) :
    (parseAs file source).diagnostics = [] ∧ (parseAs file source).program = program ↔
      ∃ n ≤ 256, Derives (.statements program.statements) (tokenize source file).dropLast n := by
  obtain ⟨ts, t, hts, ht, hspelt⟩ := exists_tokenize_eq file source
  have hiff := parseTokens_accepts_iff 256 (fun u hu => (hspelt u hu).ne_eof) ht program
  rwa [← hts, show ts = (tokenize source file).dropLast by rw [hts, List.dropLast_concat]] at hiff

/-- The same for a source without a name. -/
theorem parse_accepts (source : String) (program : Program) :
    (parse source).diagnostics = [] ∧ (parse source).program = program ↔
      ∃ n ≤ 256, Derives (.statements program.statements)
        (tokenize source defaultFileName).dropLast n := by
  rw [parse]
  exact parseAs_accepts defaultFileName source program

/-- A source that is one expression within the limit is accepted as this expression. -/
theorem parseAs_of_derives {file source : String} {x : Expr} {n : Nat}
    (h : Derives (.expr .lowest x) (tokenize source file).dropLast n) (hn : n ≤ 256) :
    (parseAs file source).diagnostics = [] ∧
      (parseAs file source).program = ⟨[.expression x]⟩ := by
  have hstatement : Derives (.statement (.expression x)) (_ ++ []) n :=
    .expression h (by simp) (List.forall_mem_nil _)
  have hprogram := Derives.statements hstatement .noStatements (.inr (by simp))
  rw [List.append_nil, List.append_nil, Nat.max_zero] at hprogram
  exact (parseAs_accepts file source _).2 ⟨n, hn, hprogram⟩

/-- **The parser accepts exactly its grammar and builds the tree the grammar dictates**: a source
gives a program and no diagnostic exactly when the grammar derives its tokens as that program with
no more than 256 levels, and its tokens are derived as no other program and with no other number of
levels. -/
theorem parseAs_accepts_iff_derives (file source : String) :
    (∀ program : Program,
      (parseAs file source).diagnostics = [] ∧ (parseAs file source).program = program ↔
        ∃ n ≤ 256, Derives (.statements program.statements) (tokenize source file).dropLast n) ∧
      ∀ ss rs m n, Derives (.statements ss) (tokenize source file).dropLast m →
        Derives (.statements rs) (tokenize source file).dropLast n → ss = rs ∧ m = n :=
  ⟨parseAs_accepts file source, fun _ _ _ _ hs hr => hs.statements_unique hr⟩

/-- A negation has two levels and is accepted as what it says. -/
theorem parseAs_accepts_negation :
    (parseAs defaultFileName "-a;").diagnostics = [] ∧
      (parseAs defaultFileName "-a;").program =
        ⟨[.expression (.prefixOp (.ofText defaultFileName 0 .minus ['-']) "-"
          (some (.identifier (.ofToken (.ofText defaultFileName 1 .identifier ['a'])))))]⟩ := by
  let minus := Token.ofText defaultFileName 0 .minus ['-']
  let name := Token.ofText defaultFileName 1 .identifier ['a']
  let semicolon := Token.ofText defaultFileName 2 .semicolon [';']
  have htokens : (tokenize "-a;" defaultFileName).dropLast = ([minus, name] ++ [semicolon]) ++ [] := by
    decide +kernel
  have hname : Derives (.expr .unary (.identifier (.ofToken name))) [name] 1 :=
    .expr (.identifier rfl) (.inl (by decide))
  have hminus : Derives (.expr .lowest (.prefixOp minus "-" (some (.identifier (.ofToken name)))))
      [minus, name] 2 :=
    .expr (.prefixOp (.inr rfl) hname) (.inl (by decide))
  have hstatement : Derives (.statement (.expression _)) ([minus, name] ++ [semicolon]) 2 :=
    .expression hminus le_rfl (by decide)
  refine ((parseAs_accepts_iff_derives defaultFileName "-a;").1 _).2 ⟨2, by decide, ?_⟩
  rw [htokens]
  exact .statements hstatement .noStatements (.inl rfl)

end MonkeySyntax
