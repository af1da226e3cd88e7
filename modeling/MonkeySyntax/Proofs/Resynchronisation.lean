import MonkeySyntax.Proofs.Grammar.Acceptance
import MonkeySyntax.Proofs.Grammar.Copy
import MonkeySyntax.Proofs.Parsing.Fence
import MonkeySyntax.Proofs.Token.Joining

/-! # Reading goes on behind a semicolon

Whatever is wrong with a part of a source that opens no block, it does not spoil what stands behind
its last semicolon.

* **`Parser.Fenced.exec_programItems`** — the loop over the statements comes to the semicolon and goes
  on right behind it.
* **`parseTokens_behind`** — what stands behind the semicolon is read as by itself, and no diagnostic
  stands further back than at its first token.
* **`parseAs_resynchronises`** — the same for two texts and the line break between them. -/

namespace MonkeySyntax

open Parsing ParseM

/-! ### Tokens -/

theorem Token.moves_moved (k : Nat) : Token.Moves (Token.moved k) :=
  fun _ => ⟨rfl, rfl⟩

namespace Parser

variable {m limit : Nat} {p : Parser}

/-- Behind a statement or what is left of one the parser is still fenced. -/
theorem Fenced.statement (hp : p.Fenced m) :
    (restart (parseStatement.exec p).1 (parseStatement.exec p).2).Fenced m := by
  obtain ⟨hq, -⟩ := fences_parseStatement p hp trivial
  refine hq.later (later_restart _ _) ?_
  rw [restart]
  split
  · exact hq.index_le
  · exact hq.index_le

/-- **The loop over the statements comes to the semicolon**, whatever stands before it, and goes on
right behind it. -/
theorem Fenced.exec_programItems (hp : p.Fenced m) :
    ∃ items q, Later p q ∧ q.index = m ∧ ∀ rest r,
      (collectWhile (!currentIs .eof ·) programItem).exec q.advance = (some rest, r) →
        (collectWhile (!currentIs .eof ·) programItem).exec p = (some (items ++ rest), r) := by
  induction hn : m - p.index using Nat.strong_induction_on generalizing p with
  | _ n ih =>
    have hopen : (!currentIs .eof p) = true := by
      simpa [currentIs, current] using hp.noEof p.index hp.index_le
    let o := (parseStatement.exec p).1
    let q := restart o (parseStatement.exec p).2
    have hitem : programItem.exec p = (some o, q.advance) := exec_programItem p
    have hround (rest : List (Option Statement)) (r : Parser)
        (h : (collectWhile (!currentIs .eof ·) programItem).exec q.advance = (some rest, r)) :
        (collectWhile (!currentIs .eof ·) programItem).exec p = (some (o :: rest), r) := by
      rw [exec_collectWhile candid_programItem.keeps consuming_programItem hp.standard hopen,
        exec_bind_some hitem, exec_bind_some h, exec_pure]
    have hq : q.Fenced m := hp.statement
    have hlater : Later p q := (candid_parseStatement.keeps p).trans (later_restart _ _)
    have hindex := hlater.index_le
    rcases Nat.lt_or_eq_of_le hq.index_le with hlt | heq
    · -- the statement has ended before the semicolon, which is nearer now
      have hnear : m - q.advance.index < n := by
        rw [advance_index]
        omega
      obtain ⟨items, r, hr, hrm, hloop⟩ := ih _ hnear (hq.advance hlt) rfl
      exact ⟨o :: items, r, hlater.trans ((later_advance q).trans hr), hrm,
        fun rest s hs => hround _ _ (hloop rest s hs)⟩
    · exact ⟨[o], q, hlater, heq, hround⟩

/-- A parser that has not begun sees the tokens in their order. -/
theorem tokenAt_ofTokens_mem (g : Grammar) {ts us vs : List Token} (hvs : vs = ts ++ us) {i : Nat}
    (hi : i < ts.length) : (ofTokens g vs).tokenAt i ∈ ts := by
  subst hvs
  have htoken := (ofTokens g (ts ++ us)).tokenAt_eq i
  rw [rest_ofTokens, index_ofTokens, Nat.zero_add, List.getElem?_append_left hi,
    List.getElem?_eq_getElem hi, Option.getD_some] at htoken
  rw [htoken]
  exact List.getElem_mem hi

/-- The token behind a first list of them. -/
theorem tokenAt_ofTokens_length (g : Grammar) (ts us : List Token) (u : Token) :
    (ofTokens g (ts ++ u :: us)).tokenAt ts.length = u := by
  have htoken := (ofTokens g (ts ++ u :: us)).tokenAt_eq ts.length
  rwa [rest_ofTokens, index_ofTokens, Nat.zero_add, List.getElem?_append_right le_rfl,
    Nat.sub_self] at htoken

/-- **A parser that has not begun is fenced** by a semicolon when no block is opened before it and
something new begins behind it. -/
theorem fenced_ofTokens {ts us : List Token} {s t : Token} (hs : s.kind = .semicolon)
    (hts : ∀ u ∈ ts, u.kind ≠ .openBrace ∧ u.kind ≠ .eof) (hus : ∀ u ∈ us.head?, u.kind.Opens)
    (ht : t.kind = .eof) :
    (ofTokens (.limited limit) (ts ++ [s] ++ (us ++ [t]))).Fenced ts.length := by
  have hall : ∀ u ∈ ts ++ [s], u.kind ≠ .openBrace ∧ u.kind ≠ .eof := by
    simpa [or_imp, forall_and, hs] using hts
  have hmem {i : Nat} (hi : i ≤ ts.length) :
      (ofTokens (.limited limit) (ts ++ [s] ++ (us ++ [t]))).tokenAt i ∈ ts ++ [s] :=
    tokenAt_ofTokens_mem _ rfl (by simpa using Nat.lt_succ_of_le hi)
  -- behind the semicolon there is the first of the other tokens or the end of the source
  obtain ⟨first, more, hfirst⟩ := List.exists_cons_of_ne_nil (l := us ++ [t]) (by simp)
  have hopens : first.kind.Opens := by
    cases us with
    | nil =>
      obtain ⟨rfl, -⟩ := List.cons.inj hfirst
      exact .inl ht
    | cons u us =>
      obtain ⟨rfl, -⟩ := List.cons.inj hfirst
      exact hus u rfl
  have hbehind := tokenAt_ofTokens_length (.limited limit) (ts ++ [s]) more first
  rw [← hfirst, List.length_append, List.length_singleton] at hbehind
  refine ⟨?_, ?_, ?_, fun i hi => (hall _ (hmem hi)).1, fun i hi => (hall _ (hmem hi)).2, ?_⟩
  · rw [← List.append_assoc]
    exact standard_ofTokens ht
  · rw [index_ofTokens]
    exact Nat.zero_le _
  · rw [List.append_assoc, List.singleton_append, tokenAt_ofTokens_length]
    exact hs
  · rw [hbehind]
    exact hopens

end Parser

/-! ### Whole sources -/

/-- **What stands behind a semicolon is read as by itself**, whatever stands before it, as long as no
block is opened there; no diagnostic stands further back than at the first token behind the
semicolon. -/
theorem parseTokens_behind {limit n : Nat} {ts us : List Token} {s t : Token} {ss : List Statement}
    (hs : s.kind = .semicolon) (hts : ∀ u ∈ ts, u.kind ≠ .openBrace ∧ u.kind ≠ .eof)
    (hus : Derives (.statements ss) us n) (hn : n ≤ limit)
    (hfirst : ∀ u ∈ us.head?, u.kind ≠ .minus ∧ u.kind ≠ .openParen) (ht : t.kind = .eof) :
    (∃ before, (parseTokens (.limited limit) (ts ++ [s] ++ (us ++ [t]))).program.statements =
      before ++ ss) ∧
      ∀ d ∈ (parseTokens (.limited limit) (ts ++ [s] ++ (us ++ [t]))).diagnostics,
        ∃ u ∈ ts ++ [s] ++ (us ++ [t]).take 1, d.position = u.span.start := by
  let p := Parser.ofTokens (.limited limit) (ts ++ [s] ++ (us ++ [t]))
  have hp : p.Fenced ts.length := Parser.fenced_ofTokens hs hts
    (fun u hu => .inr ⟨hus.begins u hu, hfirst u hu⟩) ht
  -- the loop comes to the semicolon, and what is ahead behind it are the other tokens
  obtain ⟨items, q, hq, hindex, hloop⟩ := hp.exec_programItems
  have hnext : Parser.Later p q.advance := hq.trans (Parser.later_advance q)
  have hrest : q.advance.rest = us ++ t :: [] := by
    have htokens : q.advance.tokens.toList = ts ++ [s] ++ (us ++ [t]) := by
      rw [hnext.tokens_eq]
      exact Parser.tokens_ofTokens _ _
    rw [Parser.rest, htokens, Parser.advance_index, hindex]
    exact List.drop_left' (by simp)
  have hlevels : q.advance.levels = limit := by
    rw [hnext.levels_eq]
    exact Parser.levels_ofTokens _ _
  obtain ⟨r, hrun, hsize⟩ : ∃ r,
      Reads (collectWhile (!currentIs .eof ·) programItem) q.advance (ss.map some) r :=
    (reads_programItems hus (hp.standard.later hnext) hrest ht).2 ⟨hlevels.symm ▸ hn, rfl⟩
  have hparsed := parseTokens_eq (hloop _ _ hrun)
  rw [hparsed]
  refine ⟨⟨items.filterMap id, ?_⟩, fun d hd => ?_⟩
  · rw [List.filterMap_append, filterMap_id_map_some]
  · -- nothing has been added behind the semicolon
    have hlater : Parser.Later q.advance r :=
      Reads.later (candid_programItem.keeps.collectWhile Parser.stepRelation_later) ⟨hrun, hsize⟩
    rw [hlater.diagnostics_of_size hsize, Parser.advance_diagnostics] at hd
    obtain ⟨found, hfound, hplace⟩ := hq.diagnostics_eq
    have hnone : p.diagnostics.toList = [] := by
      rw [Parser.diagnostics_ofTokens]
    rw [hfound, hnone, List.nil_append] at hd
    obtain ⟨i, -, hi, hposition⟩ := hplace d hd
    have hsplit : ts ++ [s] ++ (us ++ [t]) =
        ts ++ [s] ++ (us ++ [t]).take 1 ++ (us ++ [t]).drop 1 := by
      rw [List.append_assoc _ (List.take 1 _), List.take_append_drop]
    refine ⟨p.tokenAt i, Parser.tokenAt_ofTokens_mem _ hsplit ?_, hposition⟩
    rw [hindex] at hi
    simp
    omega

/-- **Reading goes on behind a semicolon.** Let no block be opened in the first text, however broken
it is, and let a semicolon be its last token. Then a second text that is read without a diagnostic
and does not continue an expression is read behind the first one as by itself: its statements are
the last ones of the program, and no diagnostic stands further back than at its first token, which
the first text and the line break have moved. -/
theorem parseAs_resynchronises (file : String) {a b : String} {s t : Token}
    (hbrace : ∀ u ∈ tokenize a file, u.kind ≠ .openBrace)
    (hlast : (tokenize a file).dropLast.getLast? = some s) (hs : s.kind = .semicolon)
    (hb : (parseAs file b).diagnostics = []) (hfirst : (tokenize b file).head? = some t)
    (ht : t.kind ∉ [Kind.semicolon, .minus, .openParen]) :
    (∃ before behind, (parseAs file (a ++ "\n" ++ b)).program.statements = before ++ behind ∧
      Statement.allAlike behind (parseAs file b).program.statements = true) ∧
      ∀ d ∈ (parseAs file (a ++ "\n" ++ b)).diagnostics,
        d.position.offset.toNat ≤ byteLength a.toList + 1 + t.span.start.offset.toNat := by
  obtain ⟨as, eof, has, -, haspelt⟩ := exists_tokenize_eq file a
  rw [has, List.dropLast_concat, List.getLast?_eq_some_iff] at hlast
  obtain ⟨ts, rfl⟩ := hlast
  obtain ⟨us, last, hbs, heof, -⟩ := exists_tokenize_eq file b
  let move := Token.moved (byteLength a.toList + 1)
  have hmove : Token.Moves move := Token.moves_moved _
  have htokens : tokenize (a ++ "\n" ++ b) file = ts ++ [s] ++ (us.map move ++ [move last]) := by
    rw [tokenize_line, has, hbs, List.dropLast_concat, List.map_append, List.map_singleton]
  have hts : ∀ u ∈ ts, u.kind ≠ .openBrace ∧ u.kind ≠ .eof := fun u hu =>
    ⟨hbrace u (by simp [has, hu]), (haspelt u (by simp [hu])).ne_eof⟩
  -- the second text is derived as before, now that it has been moved
  obtain ⟨n, hn, hderives⟩ := (parseAs_accepts file b _).1 ⟨hb, rfl⟩
  rw [hbs, List.dropLast_concat] at hderives
  obtain ⟨behind, halike, hbehind⟩ := hderives.copy hmove
  obtain ⟨more, hmore⟩ : ∃ more, us ++ [last] = t :: more := by
    rwa [hbs, List.head?_eq_some_iff] at hfirst
  have hopens : ∀ u ∈ (us.map move).head?, u.kind ≠ .minus ∧ u.kind ≠ .openParen := by
    intro u hu
    cases us with
    | nil => exact absurd hu (by simp)
    | cons v us =>
      obtain ⟨rfl, -⟩ := List.cons.inj hmore
      obtain rfl : move v = u := Option.some.inj hu
      rw [(hmove v).1]
      simpa using (not_or.1 (List.mem_cons.not.1 ht)).2
  obtain ⟨⟨before, hprogram⟩, hplace⟩ := parseTokens_behind hs hts hbehind hn hopens
    (t := move last) ((hmove last).1.trans heof)
  have hparse : parseAs file (a ++ "\n" ++ b) =
      parseTokens (.limited 256) (ts ++ [s] ++ (us.map move ++ [move last])) := by
    rw [parseAs, htokens]
    rfl
  rw [hparse]
  refine ⟨⟨before, behind, hprogram, halike⟩, fun d hd => ?_⟩
  obtain ⟨u, hu, hposition⟩ := hplace d hd
  rw [hposition]
  -- a token of the first text begins inside it, and any other one is the first of the second text
  rcases List.mem_append.1 hu with hu | hu
  · have hmem : u ∈ tokensFrom file 0 a.toList := by
      rw [← tokenize, has]
      exact List.mem_append_left _ hu
    have hinside := offset_le_of_mem_tokensFrom hmem
    omega
  · rw [← List.map_singleton, ← List.map_append, hmore, List.map_cons, List.take_succ_cons,
      List.take_zero] at hu
    rw [List.mem_singleton.1 hu]
    exact Token.offset_moved_le _ _

/-- Behind a binding without a name a name is read; what is wrong stands in the first line. -/
theorem parseAs_resynchronises_binding :
    (parseAs defaultFileName "let = 5;").diagnostics ≠ [] ∧
      (∃ before behind, (parseAs defaultFileName ("let = 5;" ++ "\n" ++ "a")).program.statements =
          before ++ behind ∧
        Statement.allAlike behind (parseAs defaultFileName "a").program.statements = true) ∧
      ∀ d ∈ (parseAs defaultFileName ("let = 5;" ++ "\n" ++ "a")).diagnostics,
        d.position.offset.toNat ≤ 9 := by
  obtain ⟨hprogram, hplace⟩ := parseAs_resynchronises defaultFileName (a := "let = 5;") (b := "a")
    (s := .ofText defaultFileName 7 .semicolon [';'])
    (t := .ofText defaultFileName 0 .identifier ['a'])
    (by decide +kernel) (by decide +kernel) rfl (by decide +kernel) (by decide +kernel) (by decide)
  exact ⟨by decide +kernel, hprogram, hplace⟩

end MonkeySyntax
