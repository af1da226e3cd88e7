import MonkeySyntax.Diagnostic.Report
import MonkeySyntax.Proofs.Source.Lines
import MonkeySyntax.Proofs.Text.SingleLine

/-! # Words in their lines

A word of a source stands in one of its lines, behind the indentation of that line and what leads up to
the word.

* **`PlacedAt text offset word before indent lead rest behind`** — the word stands at the offset, in a
  line with this indentation and these texts before it and behind it.
* **`exists_placedAt`** — so does every word that runs over no more than one line; `placedAt_self` where
  the line is the whole text.
* `PlacedAt.column`, `PlacedAt.shown` — the column of the offset, and what is shown of the line. -/

namespace MonkeySyntax

/-- **The word stands at the offset** in a line of the text, behind the indentation of that line and
behind what leads up to it. -/
structure PlacedAt (text : List Char) (offset : Nat) (word before indent lead rest behind : List Char) :
    Prop extends LineAt text offset before (indent ++ lead ++ word ++ rest) behind where
  /-- What is left of the line before the offset leads up to the word. -/
  offset_eq : offset = byteLength before + byteLength (indent ++ lead)
  /-- The line is indented so far. -/
  indented : ∀ c ∈ indent, isIndentation c = true
  /-- It is not indented any further. -/
  head : ∀ c ∈ (lead ++ word).head?, isIndentation c = false

section PlacedAt

variable {text word before indent lead rest behind : List Char} {offset : Nat}

/-! ### What is shown of the line -/

/-- A text has as many bytes as characters where each of them takes only one. -/
theorem byteLength_eq_length_iff {cs : List Char} :
    byteLength cs = cs.length ↔ ∀ c ∈ cs, c.utf8Size = 1 := by
  induction cs with
  | nil => simp
  | cons c cs ih =>
    have hpos := c.utf8Size_pos
    have hle := length_le_byteLength cs
    have hstep : byteLength (c :: cs) = (c :: cs).length ↔
        c.utf8Size = 1 ∧ byteLength cs = cs.length := by
      rw [byteLength_cons, List.length_cons]
      omega
    rw [hstep, ih, List.forall_mem_cons]

/-- So has indentation. -/
theorem byteLength_indentation (h : ∀ c ∈ indent, isIndentation c = true) :
    byteLength indent = indent.length := by
  refine byteLength_eq_length_iff.2 fun c hc => ?_
  rcases Bool.or_eq_true_iff.1 (h c hc) with hc | hc <;> rw [eq_of_beq hc] <;> rfl

/-- The indentation of a line ends where it is not indented any further. -/
theorem PlacedAt.indentation (h : PlacedAt text offset word before indent lead rest behind)
    (hword : word ≠ []) :
    (indent ++ lead ++ word ++ rest).takeWhile isIndentation = indent ∧
      (indent ++ lead ++ word ++ rest).dropWhile isIndentation = lead ++ word ++ rest := by
  have hne : lead ++ word ≠ [] := by simp [hword]
  have hhead : ∀ c ∈ (lead ++ word ++ rest).head?, isIndentation c = false := by
    obtain ⟨d, ds, hcons⟩ := List.exists_cons_of_ne_nil hne
    have hfirst := h.head
    rw [hcons] at hfirst ⊢
    exact hfirst
  have hsplit := takeWhile_append_of_head h.indented hhead
  rwa [← List.append_assoc, ← List.append_assoc] at hsplit

/-- **The column of the word** is the number of bytes that lead up to it. -/
theorem PlacedAt.column (h : PlacedAt text offset word before indent lead rest behind)
    (hword : word ≠ []) (number : Nat) :
    Line.column ⟨number, indent ++ lead ++ word ++ rest, offset - byteLength before⟩ =
      byteLength lead := by
  have hindent := byteLength_indentation h.indented
  have hoffset := h.offset_eq
  rw [byteLength_append] at hoffset
  rw [Line.column, (h.indentation hword).1]
  show offset - byteLength before - indent.length = byteLength lead
  omega

/-- **What is shown of the line** begins with what leads up to the word. -/
theorem PlacedAt.shown (h : PlacedAt text offset word before indent lead rest behind)
    (hword : word ≠ []) (number : Nat) :
    Line.shown ⟨number, indent ++ lead ++ word ++ rest, offset - byteLength before⟩ =
      trimEnd (lead ++ word ++ rest) := by
  rw [Line.shown, (h.indentation hword).2]

/-! ### Every word has its place -/

/-- Indentation consists of blanks. -/
theorem isIndentation_eq_false {c : Char} (h : isBlank c = false) : isIndentation c = false := by
  simp only [isBlank, Bool.or_eq_false_iff] at h
  simp only [isIndentation, h, Bool.or_false]

/-- A word has its place in a text of a single line that is not indented. -/
theorem placedAt_self (hword : word ≠ []) (hline : '\n' ∉ lead ++ word ++ rest)
    (hhead : ∀ c ∈ (lead ++ word).head?, isIndentation c = false) :
    PlacedAt (lead ++ word ++ rest) (byteLength lead) word [] [] lead rest [] :=
  { lineOf_self (by simp [hword]) hline with
    le_offset := Nat.zero_le _
    offset_le := by
      have hpos := byteLength_pos hword
      left
      simp only [byteLength_append, byteLength_nil, List.nil_append]
      omega
    offset_eq := (Nat.zero_add _).symm
    indented := List.forall_mem_nil _
    head := hhead }

/-- **What stands at an offset of a line** is in that line as far as it has no line feed. -/
theorem LineAt.exists_split {line : List Char} (h : LineAt text offset before line behind)
    {as bs : List Char} (htext : text = as ++ word ++ bs) (hoffset : offset = byteLength as)
    (hword : word ≠ []) (hsingle : SingleLine word) :
    ∃ inner rest, as = before ++ inner ∧ line = inner ++ word ++ rest := by
  have hstart : before ++ (line ++ behind) = as ++ (word ++ bs) := by
    rw [← List.append_assoc, ← List.append_assoc, ← h.text_eq, htext]
  obtain ⟨inner, rfl, hinner⟩ := exists_append_of_byteLength_le hstart (hoffset ▸ h.le_offset)
  have hlt : byteLength inner < byteLength line := by
    have hpos := byteLength_pos hword
    have hlength := congrArg byteLength hinner
    have hle := h.offset_le
    rw [hoffset, byteLength_append] at hle
    simp only [byteLength_append] at hlength
    rcases hle with hle | ⟨rfl, hle⟩
    · omega
    · rw [byteLength_nil] at hlength
      omega
  obtain ⟨others, rfl, hothers⟩ := exists_append_of_byteLength_le hinner.symm (Nat.le_of_lt hlt)
  rcases List.append_eq_append_iff.1 hothers with ⟨rest, rfl, -⟩ | ⟨more, rfl, hmore⟩
  · exact ⟨inner, rest, rfl, by rw [List.append_assoc]⟩
  · -- the line cannot end before the word does, since it would end with a line feed
    have hne : others ≠ [] := by
      rintro rfl
      simp at hlt
    cases more with
    | nil => exact ⟨inner, [], rfl, by simp⟩
    | cons c more =>
      have hlast := h.ends (by rw [hmore]; exact List.cons_ne_nil _ _)
      rw [List.getLast?_append, List.getLast?_eq_some_getLast hne, Option.some_or, Option.some.injEq]
        at hlast
      exact absurd (List.mem_append_left _ (hlast ▸ List.getLast_mem hne)) hsingle

/-- **Every word on a single line has its place** in the line at its offset. -/
theorem exists_placedAt {as bs : List Char} (htext : text = as ++ word ++ bs) (hword : word ≠ [])
    (hsingle : SingleLine word) (hhead : ∀ c ∈ word.head?, isIndentation c = false) :
    ∃ before indent lead rest behind,
      PlacedAt text (byteLength as) word before indent lead rest behind := by
  have hne : text ≠ [] := by simp [htext, hword]
  have hle : byteLength as ≤ byteLength text := by simp [htext]
  obtain ⟨before, line, behind, hline, -⟩ := exists_lineAt hne hle
  obtain ⟨inner, rest, rfl, rfl⟩ := hline.exists_split htext rfl hword hsingle
  have hinner := List.takeWhile_append_dropWhile (p := isIndentation) (l := inner)
  refine ⟨before, inner.takeWhile isIndentation, inner.dropWhile isIndentation, rest, behind,
    ⟨by rwa [hinner], by rw [hinner, byteLength_append], fun c hc => ?_, fun c hc => ?_⟩⟩
  · exact List.all_eq_true.1 List.all_takeWhile c hc
  · have hdrop := List.head?_dropWhile_not isIndentation inner
    cases hrest : inner.dropWhile isIndentation with
    | nil => exact hhead c (by rwa [hrest] at hc)
    | cons d ds =>
      rw [hrest] at hdrop hc
      obtain rfl : d = c := Option.some.inj hc
      simpa using hdrop

end PlacedAt

end MonkeySyntax
