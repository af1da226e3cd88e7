import MonkeySyntax.Proofs.Token.Spelling

/-! # The texts of a kind

What a token of some kind may look like, told without cutting a text.

* **`Kind.WrittenAs k text`** — a token of the kind may have this text.
* **`Kind.writtenAs_iff_spelt`** — it is the same to be spelt so. -/

namespace MonkeySyntax

/-- **A token of the kind may have this text**: a word that is no keyword, a run of digits, one character
that starts nothing else, or the spelling of the kind. -/
def Kind.WrittenAs (k : Kind) (text : List Char) : Prop :=
  match k with
  | .eof => False
  | .identifier =>
    text ≠ [] ∧ (∀ c ∈ text, isWordChar c = true) ∧ ∀ p ∈ keywords, text ≠ p.1.toList
  | .integer => text ≠ [] ∧ ∀ c ∈ text, isDigit c = true
  | .illegal => ∃ c, text = [c] ∧ isBlank c = false ∧ isWordChar c = false ∧ isDigit c = false ∧
      ∀ p ∈ symbols, c ≠ p.1
  | k => text = k.spelling.toList

/-- A kind with one spelling is written with it. -/
theorem Kind.writtenAs_of_isFixed {k : Kind} (hk : k.IsFixed) (text : List Char) :
    k.WrittenAs text ↔ text = k.spelling.toList := by
  cases k <;> first
    | exact Iff.rfl
    | exact absurd hk (by decide)

/-- The kinds of the keywords and of the symbols have one spelling. -/
theorem Kind.isFixed_of_mem_keywords : ∀ p ∈ keywords, p.2.IsFixed := by decide

theorem Kind.isFixed_of_mem_symbols : ∀ p ∈ symbols, p.2.IsFixed := by decide

/-- What is spelt in the one way of its kind is written so. -/
theorem Kind.Spelt.writtenAs_of_isFixed {k : Kind} {text : List Char} (h : k.Spelt text)
    (hk : k.IsFixed) : k.WrittenAs text := by
  rw [Kind.writtenAs_of_isFixed hk, ← h.eq_spelling hk, String.toList_ofList]

theorem Kind.Spelt.writtenAs {k : Kind} {text : List Char} (h : k.Spelt text) : k.WrittenAs text := by
  cases h with
  | @word c cs hall =>
    rcases Kind.ofWord_eq (String.ofList (c :: cs)) with hword | hmem
    · rw [hword]
      refine ⟨List.cons_ne_nil c cs, hall, fun p hp heq => ?_⟩
      -- a keyword would have had its own kind
      rw [heq, String.ofList_toList, Kind.ofWord_of_mem (k := p.2) hp] at hword
      have hfixed := Kind.isFixed_of_mem_keywords p hp
      rw [hword] at hfixed
      exact absurd hfixed (by decide)
    · exact Kind.Spelt.writtenAs_of_isFixed (.word hall) (Kind.isFixed_of_mem_keywords _ hmem)
  | @number c cs hall => exact ⟨List.cons_ne_nil c cs, hall⟩
  | equals => exact rfl
  | notEquals => exact rfl
  | @symbol c hword hdigit hblank =>
    rcases Kind.ofSymbol_eq c with hsymbol | hmem
    · rw [hsymbol]
      refine ⟨c, rfl, hblank, hword, hdigit, ?_⟩
      rintro p hp rfl
      have hall : ∀ p ∈ symbols, Kind.ofSymbol p.1 ≠ .illegal := by decide
      exact hall p hp hsymbol
    · exact Kind.Spelt.writtenAs_of_isFixed (.symbol hword hdigit hblank)
        (Kind.isFixed_of_mem_symbols _ hmem)

/-- **What may be written is what is spelt so.** -/
theorem Kind.writtenAs_iff_spelt {k : Kind} {text : List Char} : k.WrittenAs text ↔ k.Spelt text := by
  refine ⟨fun h => ?_, Kind.Spelt.writtenAs⟩
  by_cases hk : k.IsFixed
  · rw [(Kind.writtenAs_of_isFixed hk text).1 h]
    exact spelt_spelling hk
  · rw [IsFixed, not_not] at hk
    simp only [List.mem_cons, List.not_mem_nil, or_false] at hk
    rcases hk with rfl | rfl | rfl | rfl
    · exact h.elim
    · obtain ⟨c, rfl, hblank, hword, hdigit, hsymbol⟩ := h
      rcases Kind.ofSymbol_eq c with hillegal | hmem
      · exact hillegal ▸ .symbol hword hdigit hblank
      · exact absurd rfl (hsymbol _ hmem)
    · obtain ⟨hne, hall, hkeyword⟩ := h
      obtain ⟨c, cs, rfl⟩ := List.exists_cons_of_ne_nil hne
      rcases Kind.ofWord_eq (String.ofList (c :: cs)) with hword | hmem
      · exact hword ▸ .word hall
      · exact (hkeyword _ hmem String.toList_ofList.symm).elim
    · obtain ⟨hne, hall⟩ := h
      obtain ⟨c, cs, rfl⟩ := List.exists_cons_of_ne_nil hne
      exact .number hall

end MonkeySyntax
