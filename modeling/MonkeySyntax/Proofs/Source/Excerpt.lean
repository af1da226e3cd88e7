import Mathlib.Data.Nat.Digits.Defs
import MonkeySyntax.Diagnostic.Report
import MonkeySyntax.Proofs.Source.Lines

/-! # Excerpts

The last three lines of a report show a line of the source with its number, between a gutter and a
caret. There is room for every number of a line, but not for every caret.

* **`Shows text shown`** — this is the text without its indentation and the white space at its end.
* `LineAt.number_lt` — the number of a line has no more than ten digits.
* `gutter`, `numberedLine`, `caretLine` — the three lines; **`Line.excerpt?_eq`** says that they make up
  the excerpt, and where there is none.
* `LineOf.newline_notMem_shown` — what is shown of a line has no line feed. -/

namespace MonkeySyntax

/-! ### What is shown of a line -/

/-- **What is shown of a text**: all but the indentation and the white space at the end. -/
structure Shows (text shown : List Char) : Prop where
  /-- The rest is indentation and white space. -/
  split : ∃ indent spaces, text = indent ++ shown ++ spaces ∧ (∀ c ∈ indent, isIndentation c = true) ∧
    ∀ c ∈ spaces, isWhiteSpace c = true
  /-- No indentation is left. -/
  head : ∀ c ∈ shown.head?, isIndentation c = false
  /-- No white space is left at the end. -/
  last : ∀ c ∈ shown.getLast?, isWhiteSpace c = false

/-- White space is taken off the end only. -/
theorem head?_trimEnd {text : List Char} {c : Char} (h : (trimEnd text).head? = some c) :
    text.head? = some c := by
  obtain ⟨spaces, hspaces, -⟩ := trimEnd_append text
  rw [← hspaces, List.head?_append, h]
  rfl

/-- **A line shows its text** without indentation and white space at the end. -/
theorem Line.shows (line : Line) : Shows line.text line.shown where
  split := by
    obtain ⟨spaces, hspaces, hwhite⟩ := trimEnd_append (line.text.dropWhile isIndentation)
    refine ⟨line.text.takeWhile isIndentation, spaces, ?_, fun c hc => ?_, hwhite⟩
    · rw [shown, List.append_assoc, hspaces, List.takeWhile_append_dropWhile]
    · exact List.all_eq_true.1 List.all_takeWhile c hc
  head c hc := by
    have hhead := List.head?_dropWhile_not isIndentation line.text
    rw [head?_trimEnd hc] at hhead
    simpa using hhead
  last c hc := getLast?_trimEnd hc

/-- **What is shown of a line has no line feed**: the one at its end is white space. -/
theorem LineOf.newline_notMem_shown {text before line behind shown : List Char}
    (h : LineOf text before line behind) (hshows : Shows line shown) : '\n' ∉ shown := by
  intro hfeed
  obtain ⟨indent, spaces, rfl, -, -⟩ := hshows.split
  -- at the end of what is shown there is no white space, and before it no line feed
  rcases List.eq_nil_or_concat shown with rfl | ⟨init, c, rfl⟩
  · exact absurd hfeed List.not_mem_nil
  · rw [List.concat_eq_append] at hfeed h hshows
    rcases List.mem_append.1 hfeed with hinit | hc
    · refine h.inside ?_
      rw [List.append_assoc, List.append_assoc, ← List.append_assoc indent,
        List.dropLast_append_of_ne_nil (by simp)]
      exact List.mem_append_left _ (List.mem_append_right _ hinit)
    · obtain rfl := List.mem_singleton.1 hc
      exact absurd (hshows.last '\n' List.getLast?_concat) (by decide)

/-! ### The lines of an excerpt -/

/-- **The gutter** beside a line with the given number. -/
def gutter (number : Nat) : List Char :=
  List.replicate ((Nat.repr number).toList.length + 1) ' ' ++ ['|']

/-- A line **with its number**. -/
def numberedLine (number : Nat) (text : List Char) : List Char :=
  (Nat.repr number).toList ++ " | ".toList ++ text

/-- **The line of the caret** with as many dashes before it. -/
def caretLine (number dashes : Nat) : List Char :=
  gutter number ++ ' ' :: (List.replicate dashes '-' ++ ['^'])

/-- **The number of a line has few digits**, since the line begins at an offset that fits. -/
theorem LineAt.number_lt {text before line behind : List Char} {offset : UInt32}
    (h : LineAt text offset.toNat before line behind) : 1 + before.count '\n' < 10 ^ 10 := by
  have hcount : before.count '\n' ≤ before.length := List.count_le_length
  have hlength := length_le_byteLength before
  have hoffset := h.le_offset
  have hfits := offset.toNat_lt
  omega

/-- **An excerpt** is a gutter, the numbered line and the line of the caret. There is none where the caret
would stand too far to the right. -/
theorem Line.excerpt?_eq {line : Line} (hnumber : line.number < 10 ^ 10) :
    line.excerpt? = if line.column < 65535 then
      some (gutter line.number ++ '\n' :: (numberedLine line.number line.shown ++ '\n' ::
        caretLine line.number line.column)) else none := by
  have hdigits : (Nat.repr line.number).toList.length ≤ 10 := by
    rw [String.length_toList]
    exact Nat.repr_length _ _ (by decide) hnumber
  have hgutter : (Nat.repr line.number).toList.length + 2 ≤ maxWidth :=
    Nat.le_trans (Nat.add_le_add_right hdigits 2) (by decide)
  simp only [excerpt?, rightAligned?, if_pos hgutter]
  by_cases hcolumn : line.column < 65535
  · have hcaret : line.column + 1 ≤ maxWidth := hcolumn
    rw [if_pos hcaret, if_pos hcolumn]
    rfl
  · have hcaret : ¬ line.column + 1 ≤ maxWidth := hcolumn
    rw [if_neg hcaret, if_neg hcolumn]
    rfl

end MonkeySyntax
