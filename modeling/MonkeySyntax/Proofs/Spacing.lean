import MonkeySyntax.Proofs.Composition

/-! # Spacing plays no part

Once a source has been cut into tokens, neither its blanks nor the places of the tokens matter. Two
sources whose tokens say the same in the same order are read as alike programs, and what is wrong with
the one is wrong with the other at the same token.

* `Token.content` — what a token says, wherever it stands.
* `Token.Paired ts us t u` — two tokens stand at the same place of two lists.
* **`Diagnostic.RefersTo ts i d`** — the diagnostic stands at the token with the number `i`, and at no
  other one.
* **`parseTokens_agree`** — lists of tokens in pairs give alike programs and diagnostics in pairs.
* **`parseAs_ignores_spacing`** — the same for two sources. -/

namespace MonkeySyntax

open Parsing ParseM

/-! ### Tokens in pairs -/

/-- **What a token says**: its kind and its text. -/
def Token.content (t : Token) : Kind × String :=
  (t.kind, t.text)

/-- Alike tokens are those that say the same. -/
theorem Token.alike_iff_content {t u : Token} : t.alike u = true ↔ t.content = u.content := by
  rw [alike_iff, content, content, Prod.mk.injEq]

/-- **Two tokens stand at the same place** of two lists. -/
def Token.Paired (ts us : List Token) (t u : Token) : Prop :=
  ∃ i : Nat, ts[i]? = some t ∧ us[i]? = some u

section Pairs

variable {ts us : List Token} {t u : Token}

/-- Where two lists say the same, tokens at the same place are alike. -/
theorem Token.Paired.alike (h : Token.Paired ts us t u)
    (hcontent : ts.map Token.content = us.map Token.content) : t.alike u = true := by
  obtain ⟨i, ht, hu⟩ := h
  have hplace := congrArg (·[i]?) hcontent
  simp only [List.getElem?_map, ht, hu, Option.map_some, Option.some.injEq] at hplace
  exact Token.alike_iff_content.2 hplace

/-- Lists of one length are paired place by place. -/
theorem forall₂_paired (h : ts.length = us.length) :
    List.Forall₂ (Token.Paired ts us) ts us := by
  apply List.forall₂_iff_get.2
  exact ⟨h, fun i hi hj => ⟨i, List.getElem?_eq_getElem hi, List.getElem?_eq_getElem hj⟩⟩

/-- Of two lists in pairs, all but the last tokens are in pairs, and so are the last ones. -/
theorem forall₂_of_concat {L : Token → Token → Prop}
    (h : List.Forall₂ L (ts ++ [t]) (us ++ [u])) : List.Forall₂ L ts us ∧ L t u := by
  have hlength : ts.length = us.length := by simpa using h.length_eq
  have hts := List.forall₂_take_append _ us [u] h
  have ht := List.forall₂_drop_append _ us [u] h
  rw [← hlength, List.take_left] at hts
  rw [← hlength, List.drop_left, List.forall₂_cons] at ht
  exact ⟨hts, ht.1⟩

end Pairs

/-! ### Two lists of tokens -/

/-- **Lists of tokens in pairs are read alike**: their programs are alike, and their diagnostics say the
same of tokens in pairs. -/
theorem parseTokens_agree {L : Token → Token → Prop} {g : Grammar} {ts us : List Token} {t u : Token}
    (halike : ∀ {t u}, L t u → t.alike u = true) (h : List.Forall₂ L (ts ++ [t]) (us ++ [u])) :
    (parseTokens g (ts ++ [t])).program.alike (parseTokens g (us ++ [u])).program = true ∧
      List.Forall₂ (Diagnostic.Echoes L) (parseTokens g (ts ++ [t])).diagnostics
        (parseTokens g (us ++ [u])).diagnostics := by
  obtain ⟨hts, htu⟩ := forall₂_of_concat h
  -- both parsers stand at the first of their tokens, with nothing before those that correspond
  have hstep : Parser.InStep L ([] : List Token).length (.ofTokens g (ts ++ [t]))
      (.ofTokens g (us ++ [u])) :=
    Parser.inStep_ofTokens halike hts htu (Parser.later_refl _) (Parser.index_ofTokens _ _)
      (Parser.fresh_ofTokens _ _) (Parser.diagnostics_ofTokens _ _)
  obtain ⟨items, p, hitems⟩ := exists_exec_programItems (.ofTokens g (ts ++ [t]))
  obtain ⟨others, q, hothers⟩ := exists_exec_programItems (.ofTokens g (us ++ [u]))
  have hagree := inStep_programItems _ _ hstep
  rw [hitems, hothers] at hagree
  obtain ⟨hvalue, hparser⟩ := hagree
  rw [parseTokens_eq hitems, parseTokens_eq hothers]
  cases hvalue with
  | some hvalue =>
    exact ⟨Statement.allAlike_of_forall₂ (forall₂_filterMap_id hvalue), hparser.diagnostics⟩

/-! ### Two sources -/

/-- **The diagnostic refers to the token with the number `i`**: it stands where this token begins, and
where no other one does. -/
def Diagnostic.RefersTo (ts : List Token) (i : Nat) (d : Diagnostic) : Prop :=
  ∀ j : Nat, ts[j]?.map (·.span.start) = some d.position ↔ j = i

/-- Tokens in the order of their offsets begin at different places. -/
theorem eq_of_start_eq {ts : List Token} (h : ts.Pairwise (·.start < ·.start)) {i j : Nat}
    {t u : Token} (ht : ts[i]? = some t) (hu : ts[j]? = some u) (htu : t.start = u.start) : i = j := by
  obtain ⟨hi, rfl⟩ := List.getElem?_eq_some_iff.1 ht
  obtain ⟨hj, rfl⟩ := List.getElem?_eq_some_iff.1 hu
  have hordered := List.pairwise_iff_getElem.1 h
  rcases Nat.lt_trichotomy i j with hlt | rfl | hlt
  · have hstart := hordered i j hi hj hlt
    omega
  · rfl
  · have hstart := hordered j i hj hi hlt
    omega

/-- So a diagnostic that stands where a token begins refers to this token. -/
theorem Diagnostic.refersTo {ts : List Token} (h : ts.Pairwise (·.start < ·.start)) {i : Nat}
    {t : Token} {d : Diagnostic} (ht : ts[i]? = some t) (hd : d.position = t.span.start) :
    d.RefersTo ts i := by
  intro j
  constructor
  · intro hj
    obtain ⟨u, hu, hstart⟩ := Option.map_eq_some_iff.1 hj
    apply eq_of_start_eq h hu ht
    rw [Token.start, Token.start, hstart, hd]
  · rintro rfl
    rw [ht, Option.map_some, hd]

/-- **Spacing and positions play no part.** Let the tokens of two sources have the same kinds and texts
in the same order, whatever blanks stand between them and whatever the sources are called. Then they
are read as alike programs with the same source text and the same text for a reader, and there are as
many diagnostics for the one as for the other; those with the same number have one cause, and so one
name, message and tip, and refer to the tokens with the same number. -/
theorem parseAs_ignores_spacing {file file' a b : String}
    (h : (tokenize a file).map Token.content = (tokenize b file').map Token.content)
    (ha : byteLength a.toList < offsetBound) (hb : byteLength b.toList < offsetBound) :
    (parseAs file a).program.alike (parseAs file' b).program = true ∧
      (parseAs file a).program.toSource = (parseAs file' b).program.toSource ∧
      (parseAs file a).program.display = (parseAs file' b).program.display ∧
      List.Forall₂ (fun d e => d.cause = e.cause ∧
          ∃ i, d.RefersTo (tokenize a file) i ∧ e.RefersTo (tokenize b file') i)
        (parseAs file a).diagnostics (parseAs file' b).diagnostics := by
  have hlength : (tokenize a file).length = (tokenize b file').length := by
    simpa using congrArg List.length h
  have halike {t u : Token} (htu : Token.Paired (tokenize a file) (tokenize b file') t u) :
      t.alike u = true := htu.alike h
  obtain ⟨ts, t, hts, -⟩ := exists_tokenize_eq file a
  obtain ⟨us, u, hus, -⟩ := exists_tokenize_eq file' b
  have hpairs : List.Forall₂ (Token.Paired (tokenize a file) (tokenize b file')) (ts ++ [t])
      (us ++ [u]) := by
    rw [← hts, ← hus]
    exact forall₂_paired hlength
  have hagree := parseTokens_agree (g := .standard) halike hpairs
  rw [← hts, ← hus, ← parseAs, ← parseAs] at hagree
  obtain ⟨hprogram, hdiagnostics⟩ := hagree
  refine ⟨hprogram, Program.toSource_eq hprogram, Program.display_eq hprogram, ?_⟩
  apply hdiagnostics.imp
  rintro d e ⟨hcause, t, u, ⟨i, ht, hu⟩, hd, he⟩
  exact ⟨hcause, i, Diagnostic.refersTo (pairwise_start_tokenize file ha) ht hd,
    Diagnostic.refersTo (pairwise_start_tokenize file' hb) hu he⟩

/-- A binding without a sign is broken in the same way with and without a line break in it. -/
theorem parseAs_ignores_spacing_binding :
    (parseAs defaultFileName "let y 10 ;").diagnostics ≠ [] ∧
      (parseAs defaultFileName "let y 10 ;").program.alike
        (parseAs defaultFileName "\tlet\n  y 10;").program = true ∧
      (parseAs defaultFileName "let y 10 ;").program.toSource =
        (parseAs defaultFileName "\tlet\n  y 10;").program.toSource ∧
      (parseAs defaultFileName "let y 10 ;").program.display =
        (parseAs defaultFileName "\tlet\n  y 10;").program.display ∧
      List.Forall₂ (fun d e => d.cause = e.cause ∧
          ∃ i, d.RefersTo (tokenize "let y 10 ;" defaultFileName) i ∧
            e.RefersTo (tokenize "\tlet\n  y 10;" defaultFileName) i)
        (parseAs defaultFileName "let y 10 ;").diagnostics
        (parseAs defaultFileName "\tlet\n  y 10;").diagnostics :=
  ⟨by decide +kernel,
    parseAs_ignores_spacing (by decide +kernel) (by decide +kernel) (by decide +kernel)⟩

end MonkeySyntax
