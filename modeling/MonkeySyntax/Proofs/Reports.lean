import MonkeySyntax.Proofs.Composition
import MonkeySyntax.Proofs.Parsing.GatheringSource
import MonkeySyntax.Proofs.Parsing.Progress
import MonkeySyntax.Proofs.Parsing.Trace
import MonkeySyntax.Proofs.Source.Excerpt
import MonkeySyntax.Proofs.Source.Placement
import MonkeySyntax.Proofs.Text.SingleLine
import MonkeySyntax.Proofs.Token.Written

/-! # How diagnostics are shown

A report is five lines long: a headline, the name of the source and an excerpt. For that the position of
the diagnostic has to be in its source, and no text that is shown may run over several lines. Only where
a token stands too far to the right in its line, there is no report on it.

* **`Parser.Unbroken p`** — the tokens, the trace and the diagnostics of a parser have no line feeds;
  `Parser.stepRelation_unbroken` says that every step keeps it so.
* `exists_token_of_diagnostic` — each diagnostic of a source stands at one of its tokens.
* `Diagnostic.reportLines?` — the report cut at its line feeds; `Diagnostic.reportLines?_eq`, and
  `reportLines?_of_lineAt` where it is one on a diagnostic of the source.
* **`parse_diagnostics_shown`** — the reports on all diagnostics of a source.
* `parse_nameSource_report?`, **`parse_diagnostics_not_shown`** — a line that is too long for one. -/

namespace MonkeySyntax

open Parsing

/-! ### No line feed in what is reported -/

/-- **Nothing that a parser sees or says runs over several lines.** -/
structure Parser.Unbroken (p : Parser) : Prop where
  /-- Its tokens do not. -/
  text : ∀ i, SingleLine (p.tokenAt i).text.toList
  /-- Its trace does not. -/
  traced : ∀ t ∈ p.traced.toList, SingleLine t.toList
  /-- Nor do its diagnostics. -/
  causes : ∀ d ∈ p.diagnostics.toList, d.cause.SingleLine

namespace Parser

variable {p : Parser}

/-- One more text that has been read. -/
theorem Unbroken.traceText (hp : p.Unbroken) {text : String} (htext : SingleLine text.toList) :
    (p.traceText text).Unbroken := by
  unfold Parser.traceText
  split
  · exact hp
  · refine ⟨hp.text, ?_, hp.causes⟩
    simpa using fun t ht => ht.elim (hp.traced t <| by simpa using ·) (· ▸ htext)

/-- One more diagnostic. -/
theorem Unbroken.report (hp : p.Unbroken) {cause : Cause} (hcause : cause.SingleLine) (t : Token) :
    (p.report cause t).Unbroken := by
  refine ⟨hp.text, hp.traced, fun d hd => ?_⟩
  rw [Parser.report, Array.toList_push, List.mem_append, List.mem_singleton] at hd
  rcases hd with hd | rfl
  · exact hp.causes d hd
  · exact hcause

theorem Unbroken.unexpected (hp : p.Unbroken) (expected : Kind) (t : Token) :
    (p.report (p.unexpected expected t) t).Unbroken := by
  apply hp.report
  exact singleLine_intercalate hp.traced

/-- A diagnostic of another kind says nothing of the trace. -/
theorem Unbroken.other (hp : p.Unbroken) {cause : Cause} (t : Token)
    (hcause : ∀ expected found trace, cause ≠ .unexpectedToken expected found trace) :
    (p.report cause t).Unbroken := by
  apply hp.report
  cases cause with
  | unexpectedToken expected found trace => exact absurd rfl (hcause expected found trace)
  | _ => trivial

/-- **Every step leaves the lines unbroken.** -/
theorem stepRelation_unbroken : StepRelation fun p q => p.Unbroken → q.Unbroken where
  refl _ := id
  trans h h' := h' ∘ h
  advance p hp :=
    have hnext : { p with index := p.index + 1 }.Unbroken := ⟨hp.text, hp.traced, hp.causes⟩
    hnext.traceText (hp.text _)
  missing p kind _ hp := hp.unexpected kind p.peek
  unclosed p _ hp := hp.unexpected .closeBrace p.current
  noExpression p _ hp := hp.other _ (by simp)
  invalidInteger p _ _ hp := hp.other _ (by simp)
  tooDeep p hp := hp.other _ (by simp)
  nested p q _ h hp := by
    obtain ⟨htext, htraced, hcauses⟩ := h ⟨hp.text, hp.traced, hp.causes⟩
    exact ⟨htext, htraced, hcauses⟩

/-- A parser that has not begun has reported nothing and read no more than one token. -/
theorem unbroken_ofTokens {g : Grammar} {ts : List Token}
    (htext : ∀ i, SingleLine ((ofTokens g ts).tokenAt i).text.toList) : (ofTokens g ts).Unbroken := by
  refine ⟨htext, fun t ht => ?_, by simp⟩
  rw [fresh_ofTokens g ts] at ht
  split at ht
  · exact absurd ht List.not_mem_nil
  · rw [List.mem_singleton.1 ht]
    exact htext _

end Parser

/-- **The causes in a source have no line feed**, which would be a blank between its tokens. -/
theorem parseAs_singleLine (file source : String) :
    ∀ d ∈ (parseAs file source).diagnostics, d.cause.SingleLine := by
  obtain ⟨ts, hts, hspelt⟩ := tokensFrom_eq_append file 0 source.toList
  have hp : (Parser.ofTokens .standard (tokenize source file)).Unbroken := by
    refine Parser.unbroken_ofTokens fun i => ?_
    rw [tokenize, hts]
    rcases List.mem_append.1 (Parser.tokenAt_mem .standard ts _ i) with hmem | hmem
    · exact (hspelt _ hmem).singleLine
    · rw [congrArg Token.text (List.mem_singleton.1 hmem)]
      exact singleLine_nil
  have hkeeps := keeps_parseProgram Parser.stepRelation_unbroken
    (fun p hp => ⟨hp.text, List.forall_mem_nil _, hp.causes⟩)
    (.ofTokens .standard (tokenize source file))
  rw [parseAs_of_exec (Prod.eta _).symm]
  exact (hkeeps hp).causes

/-! ### Where diagnostics stand -/

/-- **Each diagnostic of a source stands at one of its tokens.** -/
theorem exists_token_of_diagnostic {file source : String} {d : Diagnostic}
    (h : d ∈ (parseAs file source).diagnostics) :
    ∃ t ∈ tokenize source file, d.position = t.span.start := by
  obtain ⟨ts, t, q, hts, -, hp, -, hgathers, hdiagnostics⟩ := exists_gathers file source
  obtain ⟨found, hfound, hat⟩ := hgathers.later.diagnostics_eq
  rw [hdiagnostics, hfound, Parser.diagnostics_ofTokens] at h
  obtain ⟨i, -, -, hposition⟩ := hat d (by simpa using h)
  refine ⟨_, ?_, hposition⟩
  rw [hts]
  exact Parser.tokenAt_mem _ ts t i

/-- The tokens of a text carry the name of its source. -/
theorem file_of_mem_tokensFrom {file : String} {offset : Nat} {cs : List Char} {t : Token}
    (h : t ∈ tokensFrom file offset cs) : t.span.start.file = file := by
  fun_induction tokensFrom file offset cs with
  | case1 offset =>
    rw [List.mem_singleton.1 h]
    rfl
  | case2 offset c cs hblank ih => exact ih h
  | case3 offset c cs hblank ih =>
    rcases List.mem_cons.1 h with rfl | h
    · rfl
    · exact ih h

/-! ### Reports -/

/-- The lines of an excerpt have no line feed if what is shown has none. -/
theorem Line.singleLine_excerpt (line : Line) (hshown : SingleLine line.shown) :
    SingleLine (gutter line.number) ∧ SingleLine (numberedLine line.number line.shown) ∧
      SingleLine (caretLine line.number line.column) := by
  have hgutter : SingleLine (gutter line.number) := by simp [gutter]
  have hbar : SingleLine " | ".toList := by decide
  refine ⟨hgutter, ?_, ?_⟩
  · rw [numberedLine, singleLine_append, singleLine_append]
    exact ⟨⟨singleLine_repr _, hbar⟩, hshown⟩
  · simp [caretLine, hgutter]

/-- **The lines of the report** on a diagnostic: what it is cut into at its line feeds. -/
def Diagnostic.reportLines? (d : Diagnostic) (source : String) : Option (List (List Char)) :=
  (d.report? source).map (·.toList.splitOn '\n')

/-- The headline is the name and the message, with the tip behind a blank. -/
theorem Diagnostic.headline_eq (d : Diagnostic) :
    d.headline = "Error: " ++ d.cause.name ++ " (" ++ d.message ++ ")" ++
      d.cause.tip?.elim "" (" " ++ ·) := by
  rw [headline]
  cases d.cause.tip? <;> rfl

/-- **A report cut at its line feeds**, where its position is in the source. -/
theorem Diagnostic.reportLines?_eq {d : Diagnostic} {source : String} {line : Line}
    (hline : lineAt? source.toList d.position.offset.toNat = some line) (hnumber : line.number < 10 ^ 10)
    (hcause : d.cause.SingleLine) (hfile : SingleLine d.position.file.toList)
    (hshown : SingleLine line.shown) :
    d.reportLines? source = if line.column < 65535 then
      some [d.headline.toList, "-> ".toList ++ d.position.file.toList, gutter line.number,
        numberedLine line.number line.shown, caretLine line.number line.column] else none := by
  obtain ⟨hgutter, hnumbered, hcaret⟩ := line.singleLine_excerpt hshown
  rw [reportLines?, report?, hline]
  by_cases hcolumn : line.column < 65535
  · simp only [Line.excerpt?_eq hnumber, if_pos hcolumn, Option.map_some]
    have hreport : (d.headline ++ "\n-> " ++ d.position.file ++ "\n" ++ String.ofList
        (gutter line.number ++ '\n' :: (numberedLine line.number line.shown ++ '\n' ::
          caretLine line.number line.column))).toList = ['\n'].intercalate [d.headline.toList,
        "-> ".toList ++ d.position.file.toList, gutter line.number,
        numberedLine line.number line.shown, caretLine line.number line.column] := by
      simp [List.intercalate]
    rw [hreport, List.splitOn_intercalate '\n' ?_ (List.cons_ne_nil _ _)]
    simp only [List.forall_mem_cons]
    refine ⟨singleLine_headline hcause, ?_, hgutter, hnumbered, hcaret, by simp⟩
    exact singleLine_append.2 ⟨by decide, hfile⟩
  · simp only [Line.excerpt?_eq hnumber, if_neg hcolumn, Option.map_none]

/-- **The report on a diagnostic of a source** shows the line at its position. -/
theorem reportLines?_of_lineAt {source : String} {d : Diagnostic}
    (hd : d ∈ (parse source).diagnostics) {before behind : List Char} {line : Line}
    (hline : LineAt source.toList d.position.offset.toNat before line.text behind)
    (hnumber : line.number = 1 + before.count '\n')
    (hfound : lineAt? source.toList d.position.offset.toNat = some line) :
    d.reportLines? source = if line.column < 65535 then
      some [d.headline.toList, "-> shell".toList, gutter line.number,
        numberedLine line.number line.shown, caretLine line.number line.column] else none := by
  obtain ⟨t, ht, hposition⟩ := exists_token_of_diagnostic hd
  have hfile : d.position.file = "shell" := by
    rw [hposition, file_of_mem_tokensFrom ht]
    rfl
  have hshown : SingleLine line.shown := hline.toLineOf.newline_notMem_shown line.shows
  rw [Diagnostic.reportLines?_eq hfound (hnumber ▸ hline.number_lt) (parseAs_singleLine _ _ d hd) ?_
    hshown, hfile]
  · rfl
  · rw [hfile]
    decide

/-- **How every diagnostic is shown.** Its position lies in its source. The report on it is five lines
long: the name and the message of the cause, and its tip if there is one; the name of the source; the
gutter; the line of the source at this position with its number but without its indentation and the
white space at its end; and the caret behind the same gutter. Only where there are 65535 bytes or more
between the indentation and the position there is no report. -/
theorem parse_diagnostics_shown (source : String) :
    ∀ d ∈ (parse source).diagnostics, ∃ (line : Line) (before behind : List Char),
      lineAt? source.toList d.position.offset.toNat = some line ∧
      LineAt source.toList d.position.offset.toNat before line.text behind ∧
      line.number = 1 + before.count '\n' ∧
      line.offset = d.position.offset.toNat - byteLength before ∧
      line.column = line.offset - (line.text.takeWhile isIndentation).length ∧
      Shows line.text line.shown ∧
      d.reportLines? source = if line.column < 65535 then
        some [("Error: " ++ d.cause.name ++ " (" ++ d.message ++ ")" ++
            d.cause.tip?.elim "" (" " ++ ·)).toList,
          "-> shell".toList, gutter line.number, numberedLine line.number line.shown,
          caretLine line.number line.column] else none := by
  intro d hd
  obtain ⟨t, ht, hposition⟩ := exists_token_of_diagnostic hd
  have hinside : d.position.offset.toNat ≤ byteLength source.toList := by
    have hle := offset_le_of_mem_tokensFrom ht
    rwa [Nat.zero_add, ← hposition] at hle
  have hne : source.toList ≠ [] := by
    intro hempty
    obtain rfl : source = "" := String.toList_eq_nil_iff.1 hempty
    have hnone : (parse "").diagnostics = [] := by decide +kernel
    exact absurd (hnone ▸ hd) List.not_mem_nil
  obtain ⟨before, text, behind, hline, hfound⟩ := exists_lineAt hne hinside
  let line : Line := ⟨1 + before.count '\n', text, d.position.offset.toNat - byteLength before⟩
  refine ⟨line, before, behind, hfound, hline, rfl, rfl, rfl, line.shows, ?_⟩
  rw [← d.headline_eq]
  exact reportLines?_of_lineAt hd hline rfl hfound

/-- A binding without its sign is shown without the tab before it. -/
theorem parse_diagnostics_shown_binding :
    ∃ d ∈ (parse "\n\tlet y 10;\n").diagnostics, d.reportLines? "\n\tlet y 10;\n" = some
      [("Error: UnexpectedToken (expected next token to be '=', got 'INT' parsing: 'let y ...') " ++
          "did you forget an operator or a delimiter?").toList,
        "-> shell".toList, "  |".toList, "2 | let y 10;".toList, "  | ------^".toList] := by
  let d : Diagnostic := ⟨.unexpectedToken .assign .integer "let y", .at "shell" 8⟩
  have hd : d ∈ (parse "\n\tlet y 10;\n").diagnostics := by decide +kernel
  have hline : lineAt? "\n\tlet y 10;\n".toList 8 = some ⟨2, "\tlet y 10;\n".toList, 7⟩ := by
    decide +kernel
  obtain ⟨line, -, -, hfound, -, -, -, -, -, hreport⟩ := parse_diagnostics_shown "\n\tlet y 10;\n" d hd
  obtain rfl := Option.some.inj (hline.symm.trans hfound)
  exact ⟨d, hd, hreport.trans (by decide +kernel)⟩

/-! ### A line that is too long -/

section NameSource

variable {name : List Char}

/-- A name, a semicolon and a parenthesis that closes nothing. -/
def nameSource (name : List Char) : String :=
  String.ofList (name ++ [';', ')'])

/-- The tokens of such a source. -/
theorem tokenize_nameSource (h : Kind.identifier.WrittenAs name) (file : String) :
    tokenize (nameSource name) file = [.ofText file 0 .identifier name,
      .ofText file (byteLength name) .semicolon [';'],
      .ofText file (byteLength name + 1) .closeParen [')'], .endOf file (byteLength name + 2)] := by
  have hjoins : ∀ c ∈ [';', ')'].head?, Kind.identifier.joins c = false := by
    intro c hc
    obtain rfl : ';' = c := Option.some.inj hc
    rfl
  obtain ⟨c, cs, rfl, hblank, hlexeme⟩ := lexeme_of_spelt (Kind.writtenAs_iff_spelt.1 h) hjoins
  have hbehind (offset : Nat) : tokensFrom file offset [';', ')'] =
      [.ofText file offset .semicolon [';'], .ofText file (offset + 1) .closeParen [')'],
        .endOf file (offset + 2)] := by
    rw [tokensFrom_lexeme (by decide), show (lexeme ';' [')']).rest = [')'] from rfl,
      tokensFrom_lexeme (by decide), show (lexeme ')' []).rest = [] from rfl, tokensFrom_nil]
    rfl
  rw [tokenize, nameSource, String.toList_ofList, List.cons_append, tokensFrom_lexeme hblank, hlexeme,
    hbehind, Nat.zero_add]

/-- Behind a name and a semicolon a parenthesis is read as by itself. -/
theorem parseTokens_name {t u v w : Token} (ht : t.kind = .identifier) (hu : u.kind = .semicolon)
    (hv : v.kind = .closeParen) (hw : w.kind = .eof) :
    (parseTokens (.limited 256) [t, u, v, w]).diagnostics =
      (parseTokens (.limited 256) [v, w]).diagnostics := by
  have hname : Derives (.expr .lowest (.identifier (.ofToken t))) [t] 1 :=
    .expr (.identifier ht) (.inl (by decide))
  have hstatement : Derives (.statement (.expression _)) ([t] ++ [u]) 1 :=
    .expression hname le_rfl (List.forall_mem_singleton.2 hu)
  have hprogram := hstatement.statements .noStatements (.inr (by simp))
  have hfirst : ∀ x ∈ ([v] ++ [w]).head?, x.kind ≠ .semicolon := by simp [hv]
  have hrest := diagnostics_parseTokens_append hprogram (by decide : _ ≤ 256) (by simp [hu]) hfirst hw
  simpa only [List.append_nil, List.cons_append, List.nil_append] using hrest

/-- A parenthesis that closes nothing is no expression. -/
theorem parseTokens_closeParen (file : String) (offset stop : Nat) :
    (parseTokens (.limited 256) [.ofText file offset .closeParen [')'], .endOf file stop]).diagnostics =
      [⟨.noExpression .closeParen, .at file offset⟩] := by
  rfl

/-- Only the parenthesis is wrong with such a source. -/
theorem parse_nameSource (h : Kind.identifier.WrittenAs name) :
    (parse (nameSource name)).diagnostics =
      [⟨.noExpression .closeParen, .at defaultFileName (byteLength name + 1)⟩] := by
  have hparse (source : String) :
      parse source = parseTokens (.limited 256) (tokenize source defaultFileName) := rfl
  rw [hparse, tokenize_nameSource h, parseTokens_name rfl rfl rfl rfl, parseTokens_closeParen]

/-- The name and the semicolon have one byte more than the name. -/
theorem byteLength_nameLead (name : List Char) : byteLength (name ++ [';']) = byteLength name + 1 := by
  rw [byteLength_append]
  rfl

/-- The parenthesis stands in the first line, behind the name and the semicolon. -/
theorem placedAt_nameSource (h : Kind.identifier.WrittenAs name) :
    PlacedAt (nameSource name).toList (byteLength name + 1) [')'] [] [] (name ++ [';']) [] [] := by
  have hspelt := Kind.writtenAs_iff_spelt.1 h
  have htext : (nameSource name).toList = name ++ [';'] ++ [')'] ++ [] := by simp [nameSource]
  rw [htext, ← byteLength_nameLead]
  apply placedAt_self (List.cons_ne_nil _ _)
  · have hname : '\n' ∉ name := hspelt.singleLine
    simp [hname]
  · rintro d hd
    have hjoins : ∀ c ∈ [].head?, Kind.identifier.joins c = false := by simp
    obtain ⟨c, cs, rfl, hblank, -⟩ := lexeme_of_spelt hspelt hjoins
    obtain rfl : c = d := Option.some.inj hd
    exact isIndentation_eq_false hblank

/-- **There is no report on the parenthesis** where the name before it is too long. -/
theorem parse_nameSource_report? (h : Kind.identifier.WrittenAs name)
    (hfits : byteLength name + 1 < offsetBound) :
    ∀ d ∈ (parse (nameSource name)).diagnostics,
      d.report? (nameSource name) = none ↔ 65534 ≤ byteLength name := by
  intro d hd
  obtain rfl : d = ⟨.noExpression .closeParen, .at defaultFileName (byteLength name + 1)⟩ := by
    rwa [parse_nameSource h, List.mem_singleton] at hd
  have hoffset : (Position.at defaultFileName (byteLength name + 1)).offset.toNat = byteLength name + 1 :=
    UInt32.toNat_ofNat_of_lt' hfits
  have hplaced := placedAt_nameSource h
  rw [← hoffset] at hplaced
  have hlines := reportLines?_of_lineAt hd hplaced.toLineAt rfl hplaced.lineAt?_eq
  rw [hplaced.column (List.cons_ne_nil _ _), byteLength_nameLead] at hlines
  rw [← Option.map_eq_none_iff (f := (·.toList.splitOn '\n')), ← Diagnostic.reportLines?, hlines]
  simp only [ite_eq_right_iff, reduceCtorEq, imp_false]
  omega

end NameSource

/-- **Behind a line of 65535 characters there is no report** on a diagnostic. -/
theorem parse_diagnostics_not_shown :
    byteLength (nameSource (List.replicate 65534 'a')).toList < offsetBound ∧
      ∃ d ∈ (parse (nameSource (List.replicate 65534 'a'))).diagnostics,
        d.report? (nameSource (List.replicate 65534 'a')) = none := by
  have hlength : byteLength (List.replicate 65534 'a') = 65534 := by
    rw [byteLength_eq_length_iff.2 fun c hc => List.eq_of_mem_replicate hc ▸ rfl, List.length_replicate]
  have hname : Kind.identifier.WrittenAs (List.replicate 65534 'a') := by
    refine ⟨List.ne_nil_of_length_pos (by rw [List.length_replicate]; decide), ?_, fun p hp heq => ?_⟩
    · intro c hc
      rw [List.eq_of_mem_replicate hc]
      rfl
    · have hshort : ∀ p ∈ keywords, p.1.toList.length < 65534 := by decide
      have hlt := hshort p hp
      rw [← heq, List.length_replicate] at hlt
      exact absurd hlt (Nat.lt_irrefl _)
  have hsize : byteLength (nameSource (List.replicate 65534 'a')).toList < offsetBound := by
    rw [nameSource, String.toList_ofList, byteLength_append, hlength]
    decide
  have hfits : byteLength (List.replicate 65534 'a') + 1 < offsetBound := by
    rw [hlength]
    decide
  have hd := (parse_nameSource hname).symm ▸ List.mem_singleton_self _
  exact ⟨hsize, _, hd, (parse_nameSource_report? hname hfits _ hd).2 hlength.ge⟩

end MonkeySyntax
