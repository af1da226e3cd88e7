import MonkeySyntax.Proofs.Token.Order
import MonkeySyntax.Source.Line

/-! # The line at an offset

A text is cut into lines, each with the line feed that ends it; only the last one may lack it. An offset
inside the text lies in one of them, and the offset behind the text belongs to the last one.

* **`Lines text lines`** — the text is cut into these lines; `lines_linesOf` says that its lines are, and
  `Lines.eq_linesOf` that no others are.
* **`LineOf text before line behind`** — this is a line of the text, with what stands before and behind.
* **`LineAt text offset before line behind`** — the offset belongs to this line.
* `Lines.exists_findLine?`, `Lines.exists_getLast?` — the line that a search finds, and the last one.
* **`exists_lineAt`** — the line at any offset of a text that is not empty.
* **`LineAt.unique`** — there is only one, which is what is found (`LineAt.lineAt?_eq`).
* **`LineOf.exists_lines`** — the lines above a line and below it. -/

namespace MonkeySyntax

/-! ### Cutting into lines -/

/-- **The text is cut into lines**: each but perhaps the last ends with its only line feed. -/
inductive Lines : List Char → List (List Char) → Prop where
  /-- Nothing has no lines. -/
  | nil : Lines [] []
  /-- The last line may end without a line feed. -/
  | last {line : List Char} (hne : line ≠ []) (hline : '\n' ∉ line) : Lines line [line]
  /-- Behind a line feed come the other lines. -/
  | cons {line rest : List Char} {lines : List (List Char)} (hline : '\n' ∉ line)
      (hrest : Lines rest lines) : Lines (line ++ '\n' :: rest) ((line ++ ['\n']) :: lines)

/-- **A text is cut into its lines.** -/
theorem lines_linesOf (text : List Char) : Lines text (linesOf text) := by
  unfold linesOf
  induction text with
  | nil => exact .nil
  | cons c text ih =>
    rw [cutBehind]
    by_cases hc : c = '\n'
    · subst hc
      exact @Lines.cons [] _ _ List.not_mem_nil ih
    · rw [if_neg (by simpa using hc)]
      -- the character stands in front of the first line
      generalize cutBehind (· == '\n') text = lines at ih ⊢
      cases ih with
      | nil => exact .last (by simp) (by simpa using Ne.symm hc)
      | last hne hline => exact .last (by simp) (by simp [Ne.symm hc, hline])
      | @cons line rest lines hline hrest =>
        exact @Lines.cons (c :: line) _ _ (by simp [Ne.symm hc, hline]) hrest

/-- **The lines of a text are the only ones** that it may be cut into. -/
theorem Lines.eq_linesOf {text : List Char} {lines : List (List Char)} (h : Lines text lines) :
    lines = linesOf text := by
  have hends {line : List Char} (hline : '\n' ∉ line) : ∀ c ∈ line, (c == '\n') = false := by
    intro c hc
    exact beq_eq_false_iff_ne.2 fun heq => hline (heq ▸ hc)
  induction h with
  | nil => rfl
  | last hne hline => exact (cutBehind_eq_singleton hne (hends hline)).symm
  | cons hline _ ih => rw [ih, linesOf, linesOf, cutBehind_append_cons (hends hline) rfl]

/-- **A line of a text**, with what stands before it and behind it. -/
structure LineOf (text before line behind : List Char) : Prop where
  /-- The line is a part of the text. -/
  text_eq : text = before ++ line ++ behind
  /-- It begins with the text or behind a line feed. -/
  begins : before = [] ∨ ∃ piece, before = piece ++ ['\n']
  /-- It has a character. -/
  ne_nil : line ≠ []
  /-- There is no line feed in it but perhaps the last character. -/
  inside : '\n' ∉ line.dropLast
  /-- It ends with the text or with a line feed. -/
  ends : behind ≠ [] → line.getLast? = some '\n'

/-- **The line at an offset**: the offset lies in it, or behind it at the end of the text. -/
structure LineAt (text : List Char) (offset : Nat) (before line behind : List Char) : Prop extends
    LineOf text before line behind where
  /-- The line does not begin behind the offset. -/
  le_offset : byteLength before ≤ offset
  /-- The line reaches beyond the offset, or it is the last one. -/
  offset_le : offset < byteLength before + byteLength line ∨
    behind = [] ∧ offset = byteLength before + byteLength line

section Lines

variable {text before line behind piece : List Char} {lines : List (List Char)}

/-- A text without line feeds is a line of its own. -/
theorem lineOf_self (hne : line ≠ []) (hline : '\n' ∉ line) : LineOf line [] line [] where
  text_eq := by simp
  begins := .inl rfl
  ne_nil := hne
  inside h := hline (List.dropLast_subset _ h)
  ends h := absurd rfl h

/-- A line that ends with a line feed stands in front of the others. -/
theorem lineOf_cons (hpiece : '\n' ∉ piece) (rest : List Char) :
    LineOf (piece ++ '\n' :: rest) [] (piece ++ ['\n']) rest where
  text_eq := by simp
  begins := by simp
  ne_nil := by simp
  inside := by simpa using hpiece
  ends := by simp

/-- A line behind others. -/
theorem LineOf.behind_line (h : LineOf text before line behind) (piece : List Char) :
    LineOf (piece ++ '\n' :: text) (piece ++ ['\n'] ++ before) line behind where
  text_eq := by simp [h.text_eq]
  begins := by
    rcases h.begins with rfl | ⟨other, rfl⟩
    · exact .inr ⟨piece, by simp⟩
    · exact .inr ⟨piece ++ ['\n'] ++ other, by simp⟩
  ne_nil := h.ne_nil
  inside := h.inside
  ends := h.ends

/-- A piece without line feeds and a line feed count as one line feed. -/
theorem count_line (hpiece : '\n' ∉ piece) (before : List Char) :
    (piece ++ ['\n'] ++ before).count '\n' = 1 + before.count '\n' := by
  rw [List.count_append, List.count_append, List.count_eq_zero_of_not_mem hpiece]
  rfl

/-- **The line that a search finds** reaches beyond the offset. -/
theorem Lines.exists_findLine? (h : Lines text lines) {offset : Nat} (hlt : offset < byteLength text)
    (number : Nat) : ∃ before line behind, LineAt text offset before line behind ∧
      findLine? number offset lines =
        some ⟨number + before.count '\n', line, offset - byteLength before⟩ := by
  induction h generalizing offset number with
  | nil => exact absurd hlt (Nat.not_lt_zero _)
  | @last line hne hline =>
    refine ⟨[], line, [], ⟨lineOf_self hne hline, Nat.zero_le _, .inl (by simpa using hlt)⟩, ?_⟩
    rw [findLine?, if_pos hlt]
    rfl
  | @cons piece rest lines hpiece _ ih =>
    rw [findLine?]
    by_cases hin : offset < byteLength (piece ++ ['\n'])
    · rw [if_pos hin]
      exact ⟨[], piece ++ ['\n'], rest, ⟨lineOf_cons hpiece rest, Nat.zero_le _,
        .inl (by simpa using hin)⟩, rfl⟩
    · rw [if_neg hin]
      -- the line is found behind the first one, from where the offset is counted
      have hlength : byteLength (piece ++ '\n' :: rest) =
          byteLength (piece ++ ['\n']) + byteLength rest := by simp [Nat.add_assoc]
      have hlt' : offset - byteLength (piece ++ ['\n']) < byteLength rest := by omega
      obtain ⟨before, line, behind, hline, hfound⟩ := ih hlt' (number + 1)
      have hbefore := byteLength_append (piece ++ ['\n']) before
      have hle := hline.le_offset
      refine ⟨piece ++ ['\n'] ++ before, line, behind, ⟨hline.toLineOf.behind_line piece, by omega,
        hline.offset_le.imp (by omega) fun ⟨hend, heq⟩ => ⟨hend, by omega⟩⟩, ?_⟩
      rw [hfound, count_line hpiece, hbefore, Nat.sub_sub, Nat.add_assoc]

/-- **The last line** of a text that is not empty, and the number of its lines. -/
theorem Lines.exists_getLast? (h : Lines text lines) (hne : text ≠ []) :
    ∃ before line, LineOf text before line [] ∧ lines.getLast? = some line ∧
      lines.length = 1 + before.count '\n' := by
  induction h with
  | nil => exact absurd rfl hne
  | @last line hline hfeed =>
    exact ⟨[], line, lineOf_self hline hfeed, rfl, rfl⟩
  | @cons piece rest lines hpiece hrest ih =>
    by_cases hempty : rest = []
    · obtain rfl : lines = [] := by
        cases hrest with
        | nil => rfl
        | last hne => exact absurd hempty hne
        | cons => exact absurd hempty (by simp)
      exact ⟨[], piece ++ ['\n'], hempty ▸ lineOf_cons hpiece [], rfl, rfl⟩
    · obtain ⟨before, line, hline, hlast, hlength⟩ := ih hempty
      refine ⟨piece ++ ['\n'] ++ before, line, hline.behind_line piece, ?_, ?_⟩
      · rw [List.getLast?_cons, hlast]
        rfl
      · rw [List.length_cons, hlength, count_line hpiece, Nat.add_comm]

/-- No line reaches beyond the end of all lines. -/
theorem findLine?_eq_none {offset : Nat} (h : byteLength lines.flatten ≤ offset) (number : Nat) :
    findLine? number offset lines = none := by
  induction lines generalizing offset number with
  | nil => rfl
  | cons line lines ih =>
    rw [List.flatten_cons, byteLength_append] at h
    rw [findLine?, if_neg (by omega)]
    exact ih (by omega) _

/-- **The line at an offset** of a text that is not empty is found, with the number of line feeds before
it and the distance of the offset from its beginning. -/
theorem exists_lineAt (hne : text ≠ []) {offset : Nat} (hle : offset ≤ byteLength text) :
    ∃ before line behind, LineAt text offset before line behind ∧
      lineAt? text offset = some ⟨1 + before.count '\n', line, offset - byteLength before⟩ := by
  have hlines := lines_linesOf text
  rcases Nat.lt_or_eq_of_le hle with hlt | rfl
  · obtain ⟨before, line, behind, hline, hfound⟩ := hlines.exists_findLine? hlt 1
    refine ⟨before, line, behind, hline, ?_⟩
    simp only [lineAt?, if_neg (Nat.not_lt.2 hle), hfound, Option.getD_some]
  · -- at the end no line reaches beyond the offset
    obtain ⟨before, line, hline, hlast, hlength⟩ := hlines.exists_getLast? hne
    have hsize : byteLength text = byteLength before + byteLength line := by
      rw [hline.text_eq, List.append_nil, byteLength_append]
    have hnone : findLine? 1 (byteLength text) (linesOf text) = none :=
      findLine?_eq_none (by rw [flatten_linesOf]) 1
    refine ⟨before, line, [], ⟨hline, by omega, .inr ⟨rfl, hsize⟩⟩, ?_⟩
    simp only [lineAt?, if_neg (Nat.not_lt.2 hle), hnone, hlast, hlength, Option.getD_none,
      Option.getD_some]
    rw [hsize, Nat.add_sub_cancel_left, Nat.max_eq_right (Nat.le_add_right 1 _)]

/-! ### There is only one -/

/-- A first part of a text that is no longer than another one is a first part of that one. -/
theorem exists_append_of_byteLength_le {as bs cs ds : List Char} (h : as ++ bs = cs ++ ds)
    (hle : byteLength as ≤ byteLength cs) : ∃ es, cs = as ++ es ∧ bs = es ++ ds := by
  rcases List.append_eq_append_iff.1 h with hleft | ⟨es, rfl, hes⟩
  · exact hleft
  · rw [byteLength_append] at hle
    cases es with
    | nil => exact ⟨[], by simp, by simpa using hes.symm⟩
    | cons e es =>
      have hpos := byteLength_pos (List.cons_ne_nil e es)
      omega

/-- A line ends with its line feed, if it has one. -/
theorem LineOf.newline_notMem (h : LineOf text before line behind) {first rest : List Char}
    (hline : line = first ++ rest) (hrest : rest ≠ []) : '\n' ∉ first := by
  intro hfeed
  refine h.inside ?_
  rw [hline, List.dropLast_append_of_ne_nil hrest]
  exact List.mem_append_left _ hfeed

variable {offset : Nat} {before' line' behind' : List Char}

/-- No line at an offset begins behind another one. -/
theorem LineAt.before_eq (h : LineAt text offset before line behind)
    (h' : LineAt text offset before' line' behind')
    (hle : byteLength before ≤ byteLength before') : before = before' := by
  have htext : before ++ (line ++ behind) = before' ++ (line' ++ behind') := by
    rw [← List.append_assoc, ← List.append_assoc, ← h.text_eq, ← h'.text_eq]
  obtain ⟨between, rfl, hsplit⟩ := exists_append_of_byteLength_le htext hle
  by_contra hne
  have hbetween : between ≠ [] := fun hnil => hne (by rw [hnil, List.append_nil])
  -- the text between the two beginnings ends with a line feed and belongs to the first line
  have hfeed : '\n' ∈ between := by
    rcases h'.begins with hnil | ⟨piece, hpiece⟩
    · exact absurd (List.append_eq_nil_iff.1 hnil).2 hbetween
    · have hlast := congrArg List.getLast? hpiece
      rw [List.getLast?_concat, List.getLast?_append, List.getLast?_eq_some_getLast hbetween,
        Option.some_or, Option.some.injEq] at hlast
      exact hlast ▸ List.getLast_mem hbetween
  have hlength := congrArg byteLength hsplit
  have hle' := h'.le_offset
  have hpos := byteLength_pos h'.ne_nil
  simp only [byteLength_append] at hlength hle'
  have hlt : byteLength between < byteLength line := by
    rcases h.offset_le with hlt | ⟨rfl, heq⟩
    · omega
    · rw [byteLength_nil] at hlength
      omega
  obtain ⟨rest, hline, -⟩ := exists_append_of_byteLength_le hsplit.symm (Nat.le_of_lt hlt)
  refine h.newline_notMem hline ?_ hfeed
  rintro rfl
  rw [hline, List.append_nil] at hlt
  exact Nat.lt_irrefl _ hlt

/-- No line is longer than another one that begins where it does. -/
theorem LineOf.line_eq (h : LineOf text before line behind) (h' : LineOf text before line' behind')
    (hle : byteLength line ≤ byteLength line') : line = line' := by
  have hsplit : line ++ behind = line' ++ behind' := by
    have htext := h.text_eq.symm.trans h'.text_eq
    rw [List.append_assoc, List.append_assoc] at htext
    exact List.append_cancel_left htext
  obtain ⟨rest, hline', hbehind⟩ := exists_append_of_byteLength_le hsplit hle
  by_contra hne
  have hrest : rest ≠ [] := fun hnil => hne (by rw [hline', hnil, List.append_nil])
  have hlast := h.ends (by rw [hbehind]; exact List.append_ne_nil_of_left_ne_nil hrest _)
  exact h'.newline_notMem hline' hrest (List.mem_of_getLast? hlast)

/-- **There is only one line at an offset.** -/
theorem LineAt.unique (h : LineAt text offset before line behind)
    (h' : LineAt text offset before' line' behind') : before = before' ∧ line = line' := by
  have hbefore : before = before' := by
    rcases Nat.le_total (byteLength before) (byteLength before') with hle | hle
    · exact h.before_eq h' hle
    · exact (h'.before_eq h hle).symm
  subst hbefore
  refine ⟨rfl, ?_⟩
  rcases Nat.le_total (byteLength line) (byteLength line') with hle | hle
  · exact h.toLineOf.line_eq h'.toLineOf hle
  · exact (h'.toLineOf.line_eq h.toLineOf hle).symm

/-- **The line at an offset is found.** -/
theorem LineAt.lineAt?_eq (h : LineAt text offset before line behind) :
    lineAt? text offset = some ⟨1 + before.count '\n', line, offset - byteLength before⟩ := by
  have hne : text ≠ [] := by simp [h.text_eq, h.ne_nil]
  have hle : offset ≤ byteLength text := by
    have hoffset := h.offset_le
    simp only [h.text_eq, byteLength_append]
    rcases hoffset with hlt | ⟨-, heq⟩ <;> omega
  obtain ⟨before', line', behind', h', hfound⟩ := exists_lineAt hne hle
  obtain ⟨rfl, rfl⟩ := h.unique h'
  exact hfound

/-! ### The lines above and below -/

/-- What ends with a line feed does so also behind an earlier one. -/
theorem ends_of_cons {rest : List Char}
    (h : ∀ c ∈ (piece ++ '\n' :: rest).getLast?, c = '\n') : ∀ c ∈ rest.getLast?, c = '\n' := by
  intro c hc
  apply h c
  rw [List.getLast?_append, List.getLast?_cons, Option.mem_def.1 hc]
  rfl

/-- What has no line feed does not end with one. -/
theorem not_ends (hne : line ≠ []) (hline : '\n' ∉ line) : ¬ ∀ c ∈ line.getLast?, c = '\n' :=
  fun h => hline (h _ (List.getLast?_eq_some_getLast hne) ▸ List.getLast_mem hne)

/-- A text that ends with a line feed **is cut apart** from what stands behind it. -/
theorem Lines.append (h : Lines text lines) (hends : ∀ c ∈ text.getLast?, c = '\n')
    {other : List Char} {others : List (List Char)} (h' : Lines other others) :
    Lines (text ++ other) (lines ++ others) := by
  induction h with
  | nil => exact h'
  | last hne hline => exact absurd hends (not_ends hne hline)
  | cons hline _ ih =>
    rw [List.append_assoc]
    exact .cons hline (ih (ends_of_cons hends))

/-- Such a text has **a line for every line feed**. -/
theorem Lines.length_eq (h : Lines text lines) (hends : ∀ c ∈ text.getLast?, c = '\n') :
    lines.length = text.count '\n' := by
  induction h with
  | nil => rfl
  | last hne hline => exact absurd hends (not_ends hne hline)
  | @cons line rest lines hline _ ih =>
    rw [List.length_cons, ih (ends_of_cons hends), Nat.add_comm, ← count_line hline rest,
      List.append_assoc, List.singleton_append]

/-- Of a line all but the last character has no line feed. -/
theorem LineOf.exists_concat (h : LineOf text before line behind) :
    ∃ init c, line = init ++ [c] ∧ '\n' ∉ init :=
  ⟨line.dropLast, line.getLast h.ne_nil, (List.dropLast_concat_getLast h.ne_nil).symm, h.inside⟩

/-- A line is **the only line of its own text**. -/
theorem LineOf.lines_self (h : LineOf text before line behind) : Lines line [line] := by
  obtain ⟨init, c, rfl, hinit⟩ := h.exists_concat
  by_cases hc : c = '\n'
  · exact hc ▸ .cons hinit .nil
  · exact .last h.ne_nil (by simp [hinit, Ne.symm hc])

/-- **The lines above a line and below it**: there are as many above it as there are line feeds before
it. -/
theorem LineOf.exists_lines (h : LineOf text before line behind) :
    ∃ above below, Lines text (above ++ line :: below) ∧ above.flatten = before ∧
      above.length = before.count '\n' := by
  have hends : ∀ c ∈ before.getLast?, c = '\n' := by
    rcases h.begins with rfl | ⟨piece, rfl⟩ <;> simp
  have hhere : Lines (line ++ behind) (line :: linesOf behind) := by
    by_cases hbehind : behind = []
    · simpa [hbehind] using h.lines_self
    · exact h.lines_self.append (by simp [h.ends hbehind]) (lines_linesOf behind)
  refine ⟨linesOf before, linesOf behind, ?_, flatten_linesOf before,
    (lines_linesOf before).length_eq hends⟩
  rw [h.text_eq, List.append_assoc]
  exact (lines_linesOf before).append hends hhere

end Lines

end MonkeySyntax
