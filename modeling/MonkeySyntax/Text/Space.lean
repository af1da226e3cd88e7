/-! # White space

The white space of Unicode, which is wider than the blanks between tokens.

* `isWhiteSpace`: the property `White_Space`.
* `trimEnd`: a text without the white space at its end.

`trimEnd_append` says that what is taken off is white space, and `getLast?_trimEnd` that none is
left.
-/

namespace MonkeySyntax

/-- Whether a character has the property **White_Space**. -/
def isWhiteSpace (c : Char) : Bool :=
  let n := c.toNat
  (0x9 ≤ n && n ≤ 0xd) || n == 0x20 || n == 0x85 || n == 0xa0 || n == 0x1680 ||
    (0x2000 ≤ n && n ≤ 0x200a) || n == 0x2028 || n == 0x2029 || n == 0x202f || n == 0x205f ||
    n == 0x3000

/-- A text **without the white space at its end**. -/
def trimEnd (text : List Char) : List Char :=
  (text.reverse.dropWhile isWhiteSpace).reverse

@[simp] theorem trimEnd_nil : trimEnd [] = [] := rfl

/-- What is taken off the end is white space. -/
theorem trimEnd_append (text : List Char) :
    ∃ spaces, trimEnd text ++ spaces = text ∧ ∀ c ∈ spaces, isWhiteSpace c = true := by
  refine ⟨(text.reverse.takeWhile isWhiteSpace).reverse, ?_, ?_⟩
  · rw [trimEnd, ← List.reverse_append, List.takeWhile_append_dropWhile, List.reverse_reverse]
  · intro c hc
    exact List.all_eq_true.1 List.all_takeWhile c (List.mem_reverse.1 hc)

/-- No white space is left at the end. -/
theorem getLast?_trimEnd {text : List Char} {c : Char} (h : (trimEnd text).getLast? = some c) :
    isWhiteSpace c = false := by
  rw [trimEnd, List.getLast?_reverse] at h
  have hhead := List.head?_dropWhile_not isWhiteSpace text.reverse
  rw [h] at hhead
  simpa using hhead

end MonkeySyntax
