import Mathlib.Data.List.DropRight
import MonkeySyntax.Proofs.Token.Spelling
import MonkeySyntax.Text.Space

/-! # White space and blanks

White space is cut off the end of a text, also where it is no blank between tokens. Such a character is
illegal as a token.

* `trimEnd_append_eq`, `trimEnd_eq_nil_iff`, `trimEnd_eq_self` — what is left of a text.
* **`trimEnd_append_rtakeWhile`** — what is left and what has been cut off make up the text.
* `isWhiteSpace_of_isWordChar`, `isWhiteSpace_of_isDigit` — letters and digits are no white space.
* **`Kind.Spelt.illegal_of_isWhiteSpace`** — a token with white space in it is illegal. -/

namespace MonkeySyntax

/-! ### At the end of a text -/

/-- **White space is cut off** a text from behind: where all of a second part is cut off, so may be a
part of the first one. -/
theorem trimEnd_append_eq (text other : List Char) :
    trimEnd (text ++ other) = if trimEnd other = [] then trimEnd text else text ++ trimEnd other := by
  unfold trimEnd
  rw [List.reverse_append, List.dropWhile_append]
  by_cases h : other.reverse.dropWhile isWhiteSpace = []
  · simp [h]
  · simp [h]

/-- Nothing is left of a text that is all white space, and only of such a text. -/
theorem trimEnd_eq_nil_iff {text : List Char} :
    trimEnd text = [] ↔ ∀ c ∈ text, isWhiteSpace c = true :=
  List.rdropWhile_eq_nil_iff

/-- A text without white space is left as it is. -/
theorem trimEnd_eq_self {text : List Char} (h : ∀ c ∈ text, isWhiteSpace c = false) :
    trimEnd text = text := by
  refine List.rdropWhile_eq_self_iff.2 fun hne => ?_
  rw [h _ (List.getLast_mem hne)]
  exact Bool.false_ne_true

/-- **What is left of a text** and the white space that has been cut off make up the text. -/
theorem trimEnd_append_rtakeWhile (text : List Char) :
    trimEnd text ++ text.rtakeWhile isWhiteSpace = text :=
  List.rdropWhile_append_rtakeWhile

/-! ### Characters that are no white space -/

/-- Between the space and the control character U+0085 there is no white space. -/
theorem isWhiteSpace_eq_false {c : Char} (hlow : 0x20 < c.toNat) (hhigh : c.toNat < 0x85) :
    isWhiteSpace c = false := by
  simp only [isWhiteSpace]
  simp
  omega

theorem isWhiteSpace_of_isWordChar {c : Char} (h : isWordChar c = true) : isWhiteSpace c = false := by
  rcases Bool.or_eq_true_iff.1 h with h | h
  · rcases Bool.or_eq_true_iff.1 h with h | h
    · obtain ⟨hlow, hhigh⟩ := of_decide_eq_true (p := c.val ≥ 'A'.val ∧ c.val ≤ 'Z'.val) h
      have hlow' : 65 ≤ c.toNat := hlow
      have hhigh' : c.toNat ≤ 90 := hhigh
      exact isWhiteSpace_eq_false (by omega) (by omega)
    · obtain ⟨hlow, hhigh⟩ := Bool.and_eq_true_iff.1 h
      have hlow' : 97 ≤ c.toNat := of_decide_eq_true hlow
      have hhigh' : c.toNat ≤ 122 := of_decide_eq_true hhigh
      exact isWhiteSpace_eq_false (by omega) (by omega)
  · rw [eq_of_beq h]
    decide

theorem isWhiteSpace_of_isDigit {c : Char} (h : isDigit c = true) : isWhiteSpace c = false := by
  obtain ⟨hlow, hhigh⟩ := Char.isDigit_iff_toNat.1 h
  have hlow' : 48 ≤ c.toNat := hlow
  have hhigh' : c.toNat ≤ 57 := hhigh
  exact isWhiteSpace_eq_false (by omega) (by omega)

/-! ### White space that is no blank -/

/-- **A token with white space in it is illegal.** -/
theorem Kind.Spelt.illegal_of_isWhiteSpace {k : Kind} {text : List Char} (h : k.Spelt text) {c : Char}
    (hmem : c ∈ text) (hwhite : isWhiteSpace c = true) : k = .illegal := by
  have hne {d : Char} (hd : isWhiteSpace d = false) : c ≠ d := by
    rintro rfl
    exact absurd hwhite (by simp [hd])
  have hequals : c ≠ '=' := hne (by decide)
  have hbang : c ≠ '!' := hne (by decide)
  cases h with
  | word hall => exact absurd rfl (hne (isWhiteSpace_of_isWordChar (hall c hmem)))
  | number hall => exact absurd rfl (hne (isWhiteSpace_of_isDigit (hall c hmem)))
  | equals => exact absurd hmem (by simp [hequals])
  | notEquals => exact absurd hmem (by simp [hequals, hbang])
  | @symbol d =>
    obtain rfl := List.mem_singleton.1 hmem
    have hall : ∀ p ∈ symbols, isWhiteSpace p.1 = false := by decide
    refine (Kind.ofSymbol_eq c).resolve_right fun hsymbol => ?_
    have hsign : isWhiteSpace c = false := hall (c, Kind.ofSymbol c) hsymbol
    exact hne hsign rfl

end MonkeySyntax
