import MonkeySyntax.Proofs.Source.Lines
import MonkeySyntax.Proofs.Text.Bytes

/-! # Looking up lines

A line is looked up by an offset in bytes: the lengths of the lines are added up until one reaches beyond
the offset. What is found can be told from the bytes of the source alone, without going through its
lines: the number of a line counts the line feeds before the offset.

* **`Line.StandsAt line source offset`** — this is the line at the offset, with its number, its text and
  the place of the offset in it.
* `LineOf.count_take` — no line feed stands in a line before one of its offsets.
* `LineAt.standsAt`, `standsAt_nil` — the line that is found stands at the offset.
* `Line.StandsAt.unique`, `Line.StandsAt.offset_le` — no other line does, and none beyond the end.
* **`line_lookup_exact`** — what is found at each offset of each source. -/

namespace MonkeySyntax

/-- **The line stands at the offset** of the source. -/
structure Line.StandsAt (line : Line) (source : List Char) (offset : Nat) : Prop where
  /-- Among the lines of the source it has the place that its number tells, and the bytes of the lines
  above it and the offset in it make up the offset. An empty source has one line, which is empty. -/
  place : ∃ above below,
    (Lines source (above ++ line.text :: below) ∨ source = [] ∧ above = [] ∧ line.text = []) ∧
      line.number = above.length + 1 ∧ (bytesOf above.flatten).length + line.offset = offset
  /-- The offset is inside the line, unless it is the end of the source. -/
  inside : offset ≠ (bytesOf source).length → line.offset < (bytesOf line.text).length
  /-- The number is one more than the number of line feeds before the offset. -/
  number_eq : ¬ (offset = (bytesOf source).length ∧ source.getLast? = some '\n') →
    line.number = 1 + ((bytesOf source).take offset).count 10
  /-- Only behind the last line feed of a source that ends with it, that line feed does not count. -/
  number_end : offset = (bytesOf source).length → source.getLast? = some '\n' →
    line.number = (bytesOf source).count 10

section StandsAt

variable {source before text behind : List Char} {offset : Nat}

/-- **No line feed stands in a line** before one of its offsets. -/
theorem LineOf.count_take (h : LineOf source before text behind) {n : Nat} (hn : n < byteLength text) :
    ((bytesOf text).take n).count 10 = 0 := by
  obtain ⟨init, c, rfl, hinit⟩ := h.exists_concat
  apply List.count_eq_zero_of_not_mem
  by_cases hc : c = '\n'
  · -- the offset is not behind the line feed, which has only one byte
    subst hc
    have hle : n ≤ (bytesOf init).length := by
      rw [byteLength_append] at hn
      rw [length_bytesOf]
      exact Nat.lt_succ_iff.1 hn
    rw [bytesOf_append, List.take_append_of_le_length hle]
    exact fun hten => hinit (mem_bytesOf.1 (List.mem_of_mem_take hten))
  · intro hten
    have hfeed := mem_bytesOf.1 (List.mem_of_mem_take hten)
    rw [List.mem_append, List.mem_singleton] at hfeed
    exact hfeed.elim hinit (hc ·.symm)

/-- The bytes before an offset have as many line feeds as there are before its line. -/
theorem LineAt.count_take (h : LineAt source offset before text behind)
    (hlt : offset < byteLength before + byteLength text) :
    ((bytesOf source).take offset).count 10 = before.count '\n' := by
  have hle := h.le_offset
  have hoffset : offset = byteLength before + (offset - byteLength before) := by omega
  have hfirst : offset - byteLength before ≤ (bytesOf text).length := by
    rw [length_bytesOf]
    omega
  rw [h.text_eq, List.append_assoc, hoffset, take_bytesOf_append, List.count_append, count_bytesOf,
    bytesOf_append, List.take_append_of_le_length hfirst, h.toLineOf.count_take (by omega), Nat.add_zero]

/-- The line feeds of a source are those before its last line and perhaps one at the end. -/
theorem LineOf.count_source (h : LineOf source before text []) :
    source.count '\n' = before.count '\n' + if source.getLast? = some '\n' then 1 else 0 := by
  obtain ⟨init, c, rfl, hinit⟩ := h.exists_concat
  have hlast : source.getLast? = some c := by simp [h.text_eq]
  have hcount : source.count '\n' = before.count '\n' + [c].count '\n' := by
    rw [h.text_eq, List.append_nil, List.count_append, List.count_append,
      List.count_eq_zero_of_not_mem hinit, Nat.zero_add]
  rw [hlast, hcount, List.count_singleton]
  simp

/-- **The line that is found stands at the offset.** -/
theorem LineAt.standsAt (h : LineAt source offset before text behind) :
    Line.StandsAt ⟨1 + before.count '\n', text, offset - byteLength before⟩ source offset := by
  have hle := h.le_offset
  have hsize : (bytesOf source).length = byteLength before + byteLength text + byteLength behind := by
    rw [length_bytesOf, h.text_eq, byteLength_append, byteLength_append]
  refine ⟨?_, fun hne => ?_, fun hne => ?_, fun hend hlast => ?_⟩
  · obtain ⟨above, below, hlines, habove, hlength⟩ := h.toLineOf.exists_lines
    refine ⟨above, below, .inl hlines, by rw [hlength, Nat.add_comm], ?_⟩
    rw [habove, length_bytesOf]
    exact Nat.add_sub_cancel' hle
  · rw [length_bytesOf]
    rcases h.offset_le with hlt | ⟨rfl, heq⟩
    · exact Nat.sub_lt_left_of_lt_add hle hlt
    · exact absurd (hsize.trans heq.symm).symm hne
  · rcases h.offset_le with hlt | ⟨rfl, heq⟩
    · rw [h.count_take hlt]
    · -- the whole source is before the offset, and it has no line feed at the end
      have hend : offset = (bytesOf source).length := heq.trans hsize.symm
      have hcount := h.toLineOf.count_source
      rw [if_neg fun hlast => hne ⟨hend, hlast⟩, Nat.add_zero] at hcount
      rw [hend, List.take_length, count_bytesOf, hcount]
  · rcases h.offset_le with hlt | ⟨rfl, -⟩
    · omega
    · rw [count_bytesOf, h.toLineOf.count_source, if_pos hlast, Nat.add_comm]

/-- In an empty source there is an empty line. -/
theorem standsAt_nil : Line.StandsAt ⟨1, [], 0⟩ [] 0 where
  place := ⟨[], [], .inr ⟨rfl, rfl, rfl⟩, rfl, rfl⟩
  inside hne := absurd rfl hne
  number_eq _ := rfl
  number_end _ hlast := absurd hlast (by simp)

/-! ### Exactly one line -/

/-- The offset tells the number of the line. -/
theorem Line.StandsAt.number_unique {line line' : Line} (h : line.StandsAt source offset)
    (h' : line'.StandsAt source offset) : line.number = line'.number := by
  by_cases hend : offset = (bytesOf source).length ∧ source.getLast? = some '\n'
  · rw [h.number_end hend.1 hend.2, h'.number_end hend.1 hend.2]
  · rw [h.number_eq hend, h'.number_eq hend]

/-- **There is only one line at an offset**: the number of a line tells its text and the bytes above
it. -/
theorem Line.StandsAt.unique {line line' : Line} (h : line.StandsAt source offset)
    (h' : line'.StandsAt source offset) : line = line' := by
  have hnumber := h.number_unique h'
  obtain ⟨above, below, hplace, habove, hoffset⟩ := h.place
  obtain ⟨above', below', hplace', habove', hoffset'⟩ := h'.place
  have hlength : above.length = above'.length := by omega
  have hcut {as bs : List (List Char)} {b : List Char} : ¬ Lines [] (as ++ b :: bs) := fun hlines =>
    absurd hlines.eq_linesOf (by simp)
  have hsame : above = above' ∧ line.text = line'.text := by
    rcases hplace with hlines | ⟨rfl, rfl, htext⟩
    · rcases hplace' with hlines' | ⟨rfl, -⟩
      · have heq := hlines.eq_linesOf.trans hlines'.eq_linesOf.symm
        obtain ⟨rfl, hrest⟩ := List.append_inj heq hlength
        exact ⟨rfl, (List.cons.inj hrest).1⟩
      · exact absurd hlines hcut
    · rcases hplace' with hlines' | ⟨-, rfl, htext'⟩
      · exact absurd hlines' hcut
      · exact ⟨rfl, htext.trans htext'.symm⟩
  obtain ⟨rfl, htext⟩ := hsame
  have hinner : line.offset = line'.offset := by omega
  cases line
  cases line'
  rw [Line.mk.injEq]
  exact ⟨hnumber, htext, hinner⟩

/-- The offset of a line is not beyond the end of the source. -/
theorem Line.StandsAt.offset_le {line : Line} (h : line.StandsAt source offset) :
    offset ≤ (bytesOf source).length := by
  by_contra hgt
  obtain ⟨above, below, hplace, -, hoffset⟩ := h.place
  have hinside := h.inside (by omega)
  rcases hplace with hlines | ⟨rfl, rfl, htext⟩
  · have hsource := congrArg List.flatten hlines.eq_linesOf
    rw [flatten_linesOf, List.flatten_append, List.flatten_cons] at hsource
    have hsize := congrArg (List.length ∘ bytesOf) hsource
    simp only [Function.comp_apply, bytesOf_append, List.length_append] at hsize
    omega
  · rw [htext] at hinside
    exact absurd hinside (Nat.not_lt_zero _)

/-- **Line lookup is exact.** There is no line only beyond the end of the source. At every other offset
the line is found that stands there: the one with this number among the lines of the source, where the
number is one more than the number of line feeds before the offset, or only that number at the end of a
source that ends with a line feed; the bytes of the lines above it and the offset in it make up the offset,
and this is inside the line unless it is the end of the source. -/
theorem line_lookup_exact (source : List Char) (offset : Nat) :
    (lineAt? source offset = none ↔ (bytesOf source).length < offset) ∧
      ∀ line, lineAt? source offset = some line ↔ line.StandsAt source offset := by
  have hnone : lineAt? source offset = none ↔ (bytesOf source).length < offset := by
    rw [length_bytesOf, lineAt?]
    split <;> simp_all
  have hfound : offset ≤ (bytesOf source).length →
      ∃ line, lineAt? source offset = some line ∧ line.StandsAt source offset := by
    intro hle
    rw [length_bytesOf] at hle
    by_cases hne : source = []
    · subst hne
      obtain rfl := Nat.le_zero.1 hle
      exact ⟨_, rfl, standsAt_nil⟩
    · obtain ⟨before, text, behind, hline, hfound⟩ := exists_lineAt hne hle
      exact ⟨_, hfound, hline.standsAt⟩
  refine ⟨hnone, fun line => ⟨fun hline => ?_, fun hline => ?_⟩⟩
  · have hle : offset ≤ (bytesOf source).length := by
      refine Nat.le_of_not_lt fun hlt => ?_
      rw [hnone.2 hlt] at hline
      exact absurd hline (by simp)
    obtain ⟨other, hother, hstands⟩ := hfound hle
    exact Option.some.inj (hother.symm.trans hline) ▸ hstands
  · obtain ⟨other, hother, hstands⟩ := hfound hline.offset_le
    rw [hother, hstands.unique hline]

/-- Behind the last line feed the last line goes on. -/
example : lineAt? "a\nbc\n".toList 5 = some ⟨2, "bc\n".toList, 3⟩ := by decide

end StandsAt

end MonkeySyntax
