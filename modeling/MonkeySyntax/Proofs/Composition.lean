import MonkeySyntax.Proofs.Parsing.InStepRule
import MonkeySyntax.Proofs.Parsing.Rounds
import MonkeySyntax.Proofs.Token.Order

/-! # Two sources one behind the other

A source that is read without a diagnostic and ends in a semicolon may be put before any other source:
it is read as by itself, and so is the other one, whatever is wrong with it.

* **`exec_programItems_append`** — the loop over the statements passes a derived program, whatever
  comes behind it, and leaves nothing but a fresh parser.
* **`inStep_ofTokens`** — that parser is in step with one that has not begun.
* **`parseTokens_append`**, **`parseAs_composes`** — the two programs and the diagnostics of the second
  one, for tokens and for sources; `diagnostics_parseTokens_append` where nothing is moved. -/

namespace MonkeySyntax

open Parsing ParseM

/-- A diagnostic **moved** by a number of bytes. -/
def Diagnostic.moved (k : Nat) (d : Diagnostic) : Diagnostic :=
  { d with position := d.position.moved k }

/-- Inside a source whose offsets fit, what has been moved begins exactly that many bytes further
back. -/
theorem Position.offset_moved {k : Nat} {position : Position}
    (hfits : k + position.offset.toNat < offsetBound) :
    (position.moved k).offset.toNat = k + position.offset.toNat := by
  have hsum : (position.moved k).offset = position.offset + UInt32.ofNat k := rfl
  unfold offsetBound at hfits
  rw [hsum, UInt32.toNat_add, UInt32.toNat_ofNat']
  omega

namespace Parsing

variable {p : Parser}

/-- The loop over the statements always comes to an end with a list. -/
theorem exists_exec_programItems (p : Parser) :
    ∃ items q, (collectWhile (!currentIs .eof ·) programItem).exec p = (some items, q) := by
  obtain ⟨q, -, hloop⟩ := p.exec_collectWithin_rounds p.remaining
  exact ⟨_, q, hloop⟩

/-- What comes behind a statement: the next one, or what comes behind them all, if they end in a
semicolon. -/
theorem exists_begins_behind {ts ws us : List Token} (hts : ts ≠ [])
    (hws : ∀ w ∈ ws.head?, w.kind.StartsStatement) (hseparated : Separated ts ws)
    (hlast : ∀ t ∈ (ts ++ ws).getLast?, t.kind = .semicolon)
    (hus : ∃ u vs, us = u :: vs ∧ u.kind ≠ .semicolon) :
    ∃ t vs, ws ++ us = t :: vs ∧ t.kind ≠ .semicolon ∧
      (ts.getLast?.map Token.kind = some .semicolon ∨ t.kind.Follows .lowest) := by
  cases ws with
  | nil =>
    obtain ⟨u, vs, rfl, hu⟩ := hus
    rw [List.append_nil, List.getLast?_eq_some_getLast hts] at hlast
    refine ⟨u, vs, rfl, hu, .inl ?_⟩
    rw [List.getLast?_eq_some_getLast hts, Option.map_some, hlast _ rfl]
  | cons w ws =>
    obtain ⟨hsemicolon, hbehind⟩ := hseparated.begins (hws w rfl)
    exact ⟨w, ws ++ us, rfl, hsemicolon, hbehind⟩

/-- **The loop over the statements passes a derived program** that ends in a semicolon. Nothing is
reported, and behind it the parser is as fresh as before. -/
theorem exec_programItems_append {ss : List Statement} {ts us : List Token} {n : Nat}
    (hss : Derives (.statements ss) ts n) (hp : p.Standard) (hfresh : p.Fresh)
    (hrest : p.rest = ts ++ us) (hn : n ≤ p.levels)
    (hlast : ∀ t ∈ ts.getLast?, t.kind = .semicolon)
    (hus : ∃ u vs, us = u :: vs ∧ u.kind ≠ .semicolon) :
    ∃ q, Parser.Later p q ∧ q.index = p.index + ts.length ∧ q.diagnostics = p.diagnostics ∧
      q.Fresh ∧ ∀ rest r,
        (collectWhile (!currentIs .eof ·) programItem).exec q = (some rest, r) →
          (collectWhile (!currentIs .eof ·) programItem).exec p = (some (ss.map some ++ rest), r) := by
  induction ss generalizing p ts n with
  | nil =>
    cases hss
    exact ⟨p, Parser.later_refl p, rfl, rfl, hfresh, fun rest r h => h⟩
  | cons s ss ih =>
    cases hss with
    | @statements _ _ ts ws m n hs hss hseparated =>
      obtain ⟨hm, hn⟩ := Nat.max_le.1 hn
      obtain ⟨w, vs, hts, hw⟩ := hs.begins
      have hne : ts ≠ [] := by simp [hts]
      have hready : Ready parseExpr p.levels p (ts ++ (ws ++ us)) := by
        have h := ready_parseExpr hp
        rwa [hrest, List.append_assoc] at h
      have hopen : (!currentIs .eof p) = true := by
        rw [hts] at hready
        simpa [currentIs, Ready.current hready] using (Kind.ne_of_startsStatement hw).2
      -- the statement is read, and the loop goes on behind it with an empty trace
      obtain ⟨t, xs, hxs, hsemicolon, hbehind⟩ :=
        exists_begins_behind hne hss.begins hseparated hlast hus
      have hread : Reads parseStatement p s (p.skip (ts.length - 1)) :=
        (hs.read (hxs ▸ hready) hsemicolon hbehind).2 ⟨hm, rfl, rfl⟩
      let next := (p.skip (ts.length - 1)).clearTrace.advance
      have hitem : Reads programItem p (some s) next := reads_programItem.2 ⟨s, _, rfl, hread, rfl⟩
      have hlater : Parser.Later p next := hitem.later candid_programItem.keeps
      have hnext : next.rest = ws ++ us := by
        have h := (hready.skip_pred hne).rest_eq
        rw [Parser.rest_advance, Parser.rest_clearTrace, h, List.tail_cons]
      have hindex : next.index = p.index + ts.length := by
        have hpos := List.length_pos_iff.2 hne
        have hskip := Parser.index_skip p (ts.length - 1)
        show (p.skip (ts.length - 1)).clearTrace.advance.index = p.index + ts.length
        rw [Parser.advance_index, show (p.skip (ts.length - 1)).clearTrace.index = _ from hskip]
        omega
      have hlast' : ∀ t ∈ ws.getLast?, t.kind = .semicolon := by
        intro t ht
        exact hlast t (by rw [List.getLast?_append, ht]; rfl)
      obtain ⟨q, hq, hqindex, hqdiagnostics, hqfresh, hloop⟩ := ih hss (hp.later hlater)
        (Parser.fresh_advance_clearTrace _) hnext (by rwa [hlater.levels_eq]) hlast'
      refine ⟨q, hlater.trans hq, ?_, ?_, hqfresh, fun rest r hrest => ?_⟩
      · rw [hqindex, hindex, List.length_append, Nat.add_assoc]
      · rw [hqdiagnostics, hlater.diagnostics_of_size hitem.2]
      · rw [exec_collectWhile candid_programItem.keeps consuming_programItem hp hopen,
          exec_bind_some hitem.1, exec_bind_some (hloop rest r hrest), exec_pure]
        rfl

end Parsing

/-! ### The second source -/

variable {L : Token → Token → Prop}

/-- Lists of values in pairs have values in pairs at every place, and behind their ends too. -/
theorem rel_getElem?_getD {xs ys : List Token} {x y : Token} (h : List.Forall₂ L xs ys)
    (hxy : L x y) (i : Nat) : L (xs[i]?.getD x) (ys[i]?.getD y) := by
  induction h generalizing i with
  | nil => exact hxy
  | cons hfirst _ ih =>
    cases i with
    | zero => exact hfirst
    | succ i => exact ih i

namespace Parser

/-- **A fresh parser behind the first tokens is in step** with one that has not begun to read the tokens
that correspond to the others. -/
theorem inStep_ofTokens {g : Grammar} {ts us vs : List Token} {t u : Token} {p : Parser}
    (halike : ∀ {t u}, L t u → t.alike u = true) (hus : List.Forall₂ L us vs) (htu : L t u)
    (hp : Later (ofTokens g (ts ++ us ++ [t])) p) (hindex : p.index = ts.length) (hfresh : p.Fresh)
    (hnone : p.diagnostics = #[]) : InStep L ts.length p (ofTokens g (vs ++ [u])) := by
  have hall : List.Forall₂ L (us ++ [t]) (vs ++ [u]) := List.rel_append hus (.cons htu .nil)
  have htoken (i : Nat) : L (p.tokenAt (ts.length + i)) ((ofTokens g (vs ++ [u])).tokenAt i) := by
    rw [hp.tokenAt_eq, tokenAt_ofTokens, tokenAt_ofTokens, List.append_assoc,
      List.getElem?_append_right (Nat.le_add_right _ _), Nat.add_sub_cancel_left]
    exact rel_getElem?_getD hall htu i
  have hcurrent : p.current.text = (ofTokens g (vs ++ [u])).current.text := by
    have hfirst := (Token.alike_iff.1 (halike (htoken 0))).2
    rw [Nat.add_zero, ← hindex] at hfirst
    unfold current
    rwa [index_ofTokens]
  refine ⟨halike, htoken, ?_, ?_, ?_, ?_, ?_, ?_⟩
  · have hlength := hall.length_eq
    rw [hp.tokens_eq, ← Array.length_toList, ← Array.length_toList, tokens_ofTokens, tokens_ofTokens,
      List.append_assoc, List.length_append, hlength]
  · rw [hindex, index_ofTokens]
    rfl
  · rw [show p.traced = _ from hfresh, hcurrent]
    exact (fresh_ofTokens g (vs ++ [u])).symm
  · rw [hp.depth_eq]
    simp [ofTokens]
  · rw [hp.grammar_eq, grammar_ofTokens, grammar_ofTokens]
  · rw [hnone, diagnostics_ofTokens]
    exact .nil

end Parser

/-- **Tokens behind a derived program are read as by themselves**, whatever is wrong with them: the
program has the statements that are derived and then those of the other tokens, and only what is
wrong with the latter is reported. -/
theorem parseTokens_append {limit n : Nat} {ts us vs : List Token} {t u : Token}
    {ss : List Statement} (halike : ∀ {t u}, L t u → t.alike u = true)
    (hss : Derives (.statements ss) ts n) (hn : n ≤ limit)
    (hlast : ∀ t ∈ ts.getLast?, t.kind = .semicolon) (hus : List.Forall₂ L us vs) (htu : L t u)
    (hfirst : ∀ v ∈ (vs ++ [u]).head?, v.kind ≠ .semicolon) (hu : u.kind = .eof) :
    (∃ behind, (parseTokens (.limited limit) (ts ++ us ++ [t])).program.statements = ss ++ behind ∧
      Statement.allAlike behind
        (parseTokens (.limited limit) (vs ++ [u])).program.statements = true) ∧
      List.Forall₂ (Diagnostic.Echoes L)
        (parseTokens (.limited limit) (ts ++ us ++ [t])).diagnostics
        (parseTokens (.limited limit) (vs ++ [u])).diagnostics := by
  have ht : t.kind = .eof := (Token.alike_iff.1 (halike htu)).1.trans hu
  have hp : (Parser.ofTokens (.limited limit) (ts ++ us ++ [t])).Standard := Parser.standard_ofTokens ht
  have hbegins : ∃ w ws, us ++ [t] = w :: ws ∧ w.kind ≠ .semicolon := by
    cases hus with
    | nil => exact ⟨t, [], rfl, by simp [ht]⟩
    | @cons w v ws vs hwv hws =>
      refine ⟨w, ws ++ [t], rfl, ?_⟩
      rw [(Token.alike_iff.1 (halike hwv)).1]
      exact hfirst v rfl
  have hlevels := Parser.levels_ofTokens (.limited limit) (ts ++ us ++ [t])
  -- the loop passes the derived program, and from there on both parsers do the same
  obtain ⟨q, hq, hindex, hnone, hfresh, hloop⟩ := exec_programItems_append hss hp
    (Parser.fresh_ofTokens _ _) (by rw [Parser.rest_ofTokens, List.append_assoc])
    (by rw [hlevels]; exact hn) hlast hbegins
  rw [Parser.index_ofTokens, Nat.zero_add] at hindex
  rw [Parser.diagnostics_ofTokens] at hnone
  have hstep : Parser.InStep L ts.length q (.ofTokens (.limited limit) (vs ++ [u])) :=
    Parser.inStep_ofTokens halike hus htu hq hindex hfresh hnone
  obtain ⟨rest, r, hrest⟩ := exists_exec_programItems q
  obtain ⟨others, s, hothers⟩ :=
    exists_exec_programItems (.ofTokens (.limited limit) (vs ++ [u]))
  have hagree := inStep_programItems _ _ hstep
  rw [hrest, hothers] at hagree
  obtain ⟨hvalue, hparser⟩ := hagree
  rw [parseTokens_eq (hloop rest r hrest), parseTokens_eq hothers]
  cases hvalue with
  | some hvalue =>
    refine ⟨⟨rest.filterMap id, ?_, ?_⟩, hparser.diagnostics⟩
    · rw [List.filterMap_append, filterMap_id_map_some]
    · exact Statement.allAlike_of_forall₂ (forall₂_filterMap_id hvalue)

/-- Behind a derived program **the diagnostics are those of the rest** by itself. -/
theorem diagnostics_parseTokens_append {limit n : Nat} {ts us : List Token} {t : Token}
    {ss : List Statement} (hss : Derives (.statements ss) ts n) (hn : n ≤ limit)
    (hlast : ∀ t ∈ ts.getLast?, t.kind = .semicolon)
    (hfirst : ∀ u ∈ (us ++ [t]).head?, u.kind ≠ .semicolon) (ht : t.kind = .eof) :
    (parseTokens (.limited limit) (ts ++ us ++ [t])).diagnostics =
      (parseTokens (.limited limit) (us ++ [t])).diagnostics := by
  have halike {u v : Token} (h : u = v) : u.alike v = true := h ▸ Token.alike_iff.2 ⟨rfl, rfl⟩
  have hus : List.Forall₂ Eq us us := List.forall₂_refl us
  obtain ⟨-, hechoes⟩ := parseTokens_append halike hss hn hlast hus rfl hfirst ht
  exact List.forall₂_eq_eq_eq ▸ hechoes.imp fun _ _ => Diagnostic.Echoes.eq

/-! ### Whole sources -/

/-- **A token has been moved** by a number of bytes, and its offset still fits. -/
structure Token.MovedBy (k : Nat) (t u : Token) : Prop where
  /-- It has been moved so far. -/
  eq_moved : t = u.moved k
  /-- Its offset fits. -/
  fits : k + u.span.start.offset.toNat < offsetBound

/-- What is said of tokens that have been moved is what has been said of them before, moved as well. -/
theorem eq_map_moved {k : Nat} {ds es : List Diagnostic}
    (h : List.Forall₂ (Diagnostic.Echoes (Token.MovedBy k)) ds es) :
    ds = es.map (Diagnostic.moved k) ∧
      ∀ e ∈ es, (e.moved k).position.offset.toNat = k + e.position.offset.toNat := by
  induction h with
  | nil => exact ⟨rfl, by simp⟩
  | @cons d e ds es hecho _ ih =>
    obtain ⟨hcause, t, u, ⟨rfl, hfits⟩, hd, he⟩ := hecho
    obtain ⟨hds, hes⟩ := ih
    have hde : d = e.moved k := by
      cases d
      cases e
      simp_all [Diagnostic.moved, Token.moved]
    refine ⟨by rw [hde, hds, List.map_cons], List.forall_mem_cons.2 ⟨?_, hes⟩⟩
    apply Position.offset_moved
    rwa [he]

/-- **Two sources one behind the other are read as each by itself**, if the first one is read without a
diagnostic and is empty or ends in a semicolon, and the second one, whatever is wrong with it, does
not begin with one. The program has the statements of the first source and then those of the second
one, and the diagnostics are those of the second one with the same causes, moved by the length of the
first source and the line break. -/
theorem parseAs_composes (file : String) {a b : String} (ha : (parseAs file a).diagnostics = [])
    (hlast : ∀ t ∈ (tokenize a file).dropLast.getLast?, t.kind = .semicolon)
    (hfirst : ∀ t ∈ (tokenize b file).head?, t.kind ≠ .semicolon)
    (hfits : byteLength a.toList + 1 + byteLength b.toList < offsetBound) :
    (∃ behind, (parseAs file (a ++ "\n" ++ b)).program.statements =
        (parseAs file a).program.statements ++ behind ∧
      Statement.allAlike behind (parseAs file b).program.statements = true) ∧
      (parseAs file (a ++ "\n" ++ b)).diagnostics =
        (parseAs file b).diagnostics.map (Diagnostic.moved (byteLength a.toList + 1)) ∧
      ∀ d ∈ (parseAs file b).diagnostics,
        (d.moved (byteLength a.toList + 1)).position.offset.toNat =
          byteLength a.toList + 1 + d.position.offset.toNat := by
  obtain ⟨n, hn, hderives⟩ := (parseAs_accepts file a _).1 ⟨ha, rfl⟩
  obtain ⟨us, u, hbs, hu, -⟩ := exists_tokenize_eq file b
  let k := byteLength a.toList + 1
  have hmoved : ∀ v ∈ us ++ [u], Token.MovedBy k (v.moved k) v := by
    intro v hv
    rw [← hbs] at hv
    have hinside := offset_le_of_mem_tokensFrom hv
    exact ⟨rfl, by omega⟩
  have hus : List.Forall₂ (Token.MovedBy k) (us.map (Token.moved k)) us :=
    List.forall₂_map_left_iff.2 (List.forall₂_same.2 fun v hv => hmoved v (by simp [hv]))
  have htokens : tokenize (a ++ "\n" ++ b) file =
      (tokenize a file).dropLast ++ us.map (Token.moved k) ++ [u.moved k] := by
    rw [tokenize_line, hbs, List.map_append, List.map_singleton, List.append_assoc]
  have halike {t v : Token} (h : Token.MovedBy k t v) : t.alike v = true := by
    rw [h.eq_moved]
    exact Token.alike_iff.2 ⟨rfl, rfl⟩
  rw [hbs] at hfirst
  obtain ⟨hprogram, hdiagnostics⟩ := parseTokens_append halike hderives hn hlast hus
    (hmoved u (by simp)) hfirst hu
  have hparse (source : String) :
      parseAs file source = parseTokens (.limited 256) (tokenize source file) := rfl
  rw [← htokens, ← hbs, ← hparse, ← hparse] at hprogram hdiagnostics
  exact ⟨hprogram, eq_map_moved hdiagnostics⟩

/-- Behind a binding another one without a name is reported as by itself. -/
theorem parseAs_composes_binding :
    (parseAs defaultFileName "let = 5;").diagnostics.map (·.cause) =
        [.unexpectedToken .identifier .assign "let", .noExpression .assign] ∧
      (∃ behind, (parseAs defaultFileName ("let a = 1;" ++ "\n" ++ "let = 5;")).program.statements =
          (parseAs defaultFileName "let a = 1;").program.statements ++ behind ∧
        Statement.allAlike behind (parseAs defaultFileName "let = 5;").program.statements = true) ∧
      (parseAs defaultFileName ("let a = 1;" ++ "\n" ++ "let = 5;")).diagnostics =
        (parseAs defaultFileName "let = 5;").diagnostics.map (Diagnostic.moved 11) := by
  obtain ⟨hprogram, hdiagnostics, -⟩ := parseAs_composes defaultFileName (a := "let a = 1;")
    (b := "let = 5;") (by decide +kernel) (by decide +kernel) (by decide +kernel) (by decide +kernel)
  have hlength : byteLength "let a = 1;".toList + 1 = 11 := by decide +kernel
  rw [hlength] at hdiagnostics
  exact ⟨by decide +kernel, hprogram, hdiagnostics⟩

end MonkeySyntax
