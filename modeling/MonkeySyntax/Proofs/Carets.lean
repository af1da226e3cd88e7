import MonkeySyntax.Proofs.Reports
import MonkeySyntax.Proofs.Source.Placement
import MonkeySyntax.Proofs.Text.WhiteSpace
import MonkeySyntax.Proofs.Token.Tiling

/-! # Where the caret stands

The dashes before the caret of a report are counted in bytes, while the line above shows characters. So
the caret stands under the token only where nothing before it in the line is longer than a byte, and
only if the token is not white space that is cut off the end of the line. And no caret stands where there
are too many dashes for a report.

* `Kind.Spelt.trimEnd` — a token is white space as a whole or not at all.
* `prefix_trimEnd_iff` — what is still there of a line without the white space at its end.
* **`exists_placedAt_of_token`** — each token has its place in a line of its source.
* **`Diagnostic.PointsAt d source before word`** — the caret of the report stands under the word.
* **`caret_points_iff`** — where the carets of a source stand. -/

namespace MonkeySyntax

/-! ### White space at the end -/

/-- **The text of a token is not cut**: it is white space as a whole or not at all. -/
theorem Kind.Spelt.trimEnd {k : Kind} {text : List Char} (h : k.Spelt text) :
    MonkeySyntax.trimEnd text = [] ∨ MonkeySyntax.trimEnd text = text := by
  cases h with
  | word hall => exact .inr (trimEnd_eq_self fun c hc => isWhiteSpace_of_isWordChar (hall c hc))
  | number hall => exact .inr (trimEnd_eq_self fun c hc => isWhiteSpace_of_isDigit (hall c hc))
  | equals => exact .inr rfl
  | notEquals => exact .inr rfl
  | @symbol c =>
    cases hc : isWhiteSpace c with
    | true => exact .inl (trimEnd_eq_nil_iff.2 (by simpa using hc))
    | false => exact .inr (trimEnd_eq_self (by simpa using hc))

/-- **A word is still there** in a line without the white space at its end unless there is only white
space from the word on. -/
theorem prefix_trimEnd_iff {lead word rest : List Char} (hword : word ≠ [])
    (htrim : trimEnd word = [] ∨ trimEnd word = word) :
    lead ++ word <+: trimEnd (lead ++ word ++ rest) ↔ ∃ c ∈ word ++ rest, isWhiteSpace c = false := by
  have hleft : (∃ c ∈ word ++ rest, isWhiteSpace c = false) ↔ trimEnd (word ++ rest) ≠ [] := by
    rw [Ne, trimEnd_eq_nil_iff]
    simp
  rw [hleft, List.append_assoc, trimEnd_append_eq]
  by_cases hnil : trimEnd (word ++ rest) = []
  · -- the word is cut off and perhaps more
    rw [if_pos hnil, iff_false_right (not_not_intro hnil)]
    intro hprefix
    obtain ⟨spaces, hspaces, -⟩ := trimEnd_append lead
    have hlength := hprefix.length_le
    have hlead := congrArg List.length hspaces
    have hpos := List.length_pos_iff.2 hword
    simp only [List.length_append] at hlength hlead
    omega
  · rw [if_neg hnil, iff_true_right hnil, List.prefix_append_right_inj, trimEnd_append_eq]
    rw [trimEnd_append_eq] at hnil
    split
    · next hrest =>
      rw [if_pos hrest] at hnil
      exact (htrim.resolve_left hnil).symm ▸ List.prefix_refl _
    · exact List.prefix_append _ _

/-! ### Tokens in their lines -/

/-- **Each token has its place** in a line of its source. -/
theorem exists_placedAt_of_token {file source : String} (hfits : byteLength source.toList < offsetBound)
    {t : Token} (ht : t ∈ tokenize source file) (hkind : t.kind ≠ .eof) :
    t.text.toList ≠ [] ∧ t.kind.Spelt t.text.toList ∧ ∃ before indent lead rest behind,
      PlacedAt source.toList t.start t.text.toList before indent lead rest behind := by
  have htiles : Tiles file 0 source.toList (tokenize source file) := tiles_iff.2 rfl
  rw [← Nat.zero_add (byteLength source.toList)] at hfits
  obtain ⟨ts, hts, htiling⟩ := htiles.tiling hfits
  have hmem : t ∈ ts := by
    rw [hts, List.mem_append, List.mem_singleton] at ht
    refine ht.resolve_right ?_
    rintro rfl
    exact hkind rfl
  have hspelt : t.kind.Spelt t.text.toList :=
    Kind.writtenAs_iff_spelt.1 ((htiling.kind_iff t hmem _).2 rfl)
  obtain ⟨before, behind, hsource, hstart, -, hjoins⟩ := htiling.piece t hmem
  obtain ⟨c, cs, htext, hblank, -⟩ := lexeme_of_spelt hspelt hjoins
  have hne : t.text.toList ≠ [] := by simp [htext]
  have hhead : ∀ c ∈ t.text.toList.head?, isIndentation c = false := by
    intro d hd
    rw [htext] at hd
    obtain rfl : c = d := Option.some.inj hd
    exact isIndentation_eq_false hblank
  rw [hstart, Nat.zero_add]
  exact ⟨hne, hspelt, exists_placedAt hsource hne hspelt.singleLine hhead⟩

/-! ### Carets -/

/-- **The caret points at the word**: on the last line of the report there are as many characters before
the caret as there are before the word on the line above. -/
def Diagnostic.PointsAt (d : Diagnostic) (source : String) (before word : List Char) : Prop :=
  ∃ headline name gutter printed caret,
    d.reportLines? source = some [headline, name, gutter, printed, caret] ∧
      before ++ word <+: printed ∧ caret.idxOf '^' = before.length

/-- The lines of a report are determined. -/
theorem Diagnostic.pointsAt_iff {d : Diagnostic} {source : String}
    {before word headline name gutter printed caret : List Char}
    (h : d.reportLines? source = some [headline, name, gutter, printed, caret]) :
    d.PointsAt source before word ↔ before ++ word <+: printed ∧ caret.idxOf '^' = before.length := by
  constructor
  · rintro ⟨_, _, _, _, _, hlines, hpoints⟩
    cases h.symm.trans hlines
    exact hpoints
  · exact fun hpoints => ⟨_, _, _, _, _, h, hpoints⟩

/-- Without a report there is no caret. -/
theorem Diagnostic.not_pointsAt {d : Diagnostic} {source : String} (h : d.reportLines? source = none)
    (before word : List Char) : ¬ d.PointsAt source before word := by
  rintro ⟨_, _, _, _, _, hlines, -⟩
  cases h.symm.trans hlines

/-- The caret stands **behind its dashes**, which begin below the text that is shown. -/
theorem idxOf_caretLine (number : Nat) (lead : List Char) (dashes : Nat) :
    (caretLine number dashes).idxOf '^' = (numberedLine number lead).length ↔ dashes = lead.length := by
  have hfront : '^' ∉ gutter number ++ ' ' :: List.replicate dashes '-' := by simp [gutter]
  have hcaret : caretLine number dashes = gutter number ++ ' ' :: List.replicate dashes '-' ++ ['^'] := by
    simp [caretLine]
  rw [hcaret, List.idxOf_append_of_notMem hfront, List.idxOf_cons_self]
  simp [gutter, numberedLine]
  omega

/-- **Where the caret stands.** A token stands in a line of its source behind what leads up to it, and a
report on it shows that line. The dashes before the caret are as many as the bytes that lead up to the
token, and there is no report where these are 65535 or more. So the caret points at the token if and only
if there are fewer, each character that leads up to it takes one byte and the line is not cut off at its
end before the token. -/
theorem caret_points_iff {source : String} (hfits : byteLength source.toList < offsetBound) :
    ∀ d ∈ (parse source).diagnostics, ∀ t ∈ tokenize source defaultFileName, t.kind ≠ .eof →
      d.position = t.span.start →
      (∃ before indent lead rest behind,
        PlacedAt source.toList t.start t.text.toList before indent lead rest behind) ∧
      ∀ before indent lead rest behind,
        PlacedAt source.toList t.start t.text.toList before indent lead rest behind →
        (d.reportLines? source = if byteLength lead < 65535 then
          some [("Error: " ++ d.cause.name ++ " (" ++ d.message ++ ")" ++
              d.cause.tip?.elim "" (" " ++ ·)).toList,
            "-> shell".toList, gutter (1 + before.count '\n'),
            numberedLine (1 + before.count '\n') (trimEnd (lead ++ t.text.toList ++ rest)),
            caretLine (1 + before.count '\n') (byteLength lead)] else none) ∧
        (d.PointsAt source (numberedLine (1 + before.count '\n') lead) t.text.toList ↔
          byteLength lead < 65535 ∧ (∀ c ∈ lead, c.utf8Size = 1) ∧
            ∃ c ∈ t.text.toList ++ rest, isWhiteSpace c = false) := by
  intro d hd t ht hkind hposition
  obtain ⟨hne, hspelt, hplaced⟩ := exists_placedAt_of_token hfits ht hkind
  refine ⟨hplaced, fun before indent lead rest behind h => ?_⟩
  -- the report shows the line at the position, which is the one of the token
  have hoffset : d.position.offset.toNat = t.start := by rw [hposition, Token.start]
  have hline : LineAt source.toList d.position.offset.toNat before (indent ++ lead ++ t.text.toList ++ rest)
      behind := hoffset ▸ h.toLineAt
  have hlines := reportLines?_of_lineAt hd hline rfl (hoffset ▸ h.lineAt?_eq)
  rw [hoffset, h.shown hne, h.column hne, d.headline_eq] at hlines
  refine ⟨hlines, ?_⟩
  by_cases hcolumn : byteLength lead < 65535
  · rw [if_pos hcolumn] at hlines
    rw [Diagnostic.pointsAt_iff hlines, idxOf_caretLine, byteLength_eq_length_iff, and_iff_right hcolumn,
      and_comm]
    rw [numberedLine, numberedLine, List.append_assoc, List.prefix_append_right_inj,
      prefix_trimEnd_iff hne hspelt.trimEnd]
  · rw [if_neg hcolumn] at hlines
    exact iff_of_false (Diagnostic.not_pointsAt hlines _ _) fun hall => hcolumn hall.1

/-- In a binding without its sign the caret points at the value, also behind a tab. -/
theorem caret_points_iff_binding :
    ∃ d ∈ (parse "1;\n\tlet y 10;").diagnostics,
      d.PointsAt "1;\n\tlet y 10;" (numberedLine 2 "let y ".toList) "10".toList := by
  let d : Diagnostic := ⟨.unexpectedToken .assign .integer "let y", .at "shell" 10⟩
  let t : Token := .ofText "shell" 10 .integer "10".toList
  have hd : d ∈ (parse "1;\n\tlet y 10;").diagnostics := by decide +kernel
  have ht : t ∈ tokenize "1;\n\tlet y 10;" defaultFileName := by decide +kernel
  have hplaced : PlacedAt "1;\n\tlet y 10;".toList t.start t.text.toList "1;\n".toList ['\t']
      "let y ".toList [';'] [] :=
    { text_eq := by decide +kernel
      begins := .inr ⟨"1;".toList, by decide⟩
      ne_nil := by decide
      inside := by decide
      ends := fun hne => absurd rfl hne
      le_offset := by decide
      offset_le := .inl (by decide)
      offset_eq := by decide
      indented := List.forall_mem_singleton.2 (by decide)
      head := by simp [isIndentation] }
  have hcaret := caret_points_iff (by decide +kernel) d hd t ht (by decide) rfl
  have hlead : ∀ c ∈ "let y ".toList, c.utf8Size = 1 := byteLength_eq_length_iff.1 (by decide)
  exact ⟨d, hd, (hcaret.2 _ _ _ _ _ hplaced).2.2 ⟨by decide, hlead, '1', by decide, by decide⟩⟩

/-- Behind a letter of two bytes the caret does not point at the token. -/
theorem caret_misses :
    ∃ d ∈ (parse "é)").diagnostics, ∃ t ∈ tokenize "é)" defaultFileName,
      t.kind ≠ .eof ∧ d.position = t.span.start ∧
      PlacedAt "é)".toList t.start t.text.toList [] [] ['é'] [] [] ∧
      ¬ d.PointsAt "é)" (numberedLine 1 ['é']) t.text.toList := by
  let d : Diagnostic := ⟨.noExpression .closeParen, .at "shell" 2⟩
  let t : Token := .ofText "shell" 2 .closeParen [')']
  have hd : d ∈ (parse "é)").diagnostics := by decide +kernel
  have ht : t ∈ tokenize "é)" defaultFileName := by decide +kernel
  have hplaced : PlacedAt "é)".toList t.start t.text.toList [] [] ['é'] [] [] := by
    have htext : "é)".toList = ['é'] ++ [')'] ++ [] := by decide +kernel
    have hword : t.text.toList = [')'] := String.toList_ofList
    rw [htext, hword]
    exact placedAt_self (List.cons_ne_nil _ _) (by decide) (by simp [isIndentation])
  have hlines : d.reportLines? "é)" = some [d.headline.toList, "-> shell".toList, gutter 1,
      numberedLine 1 "é)".toList, caretLine 1 2] := by decide +kernel
  refine ⟨d, hd, t, ht, by decide, rfl, hplaced, ?_⟩
  rw [Diagnostic.pointsAt_iff hlines]
  exact fun hpoints => absurd hpoints.2 (by decide)

end MonkeySyntax
