import MonkeySyntax.Proofs.Parsing.GatheringRule
import MonkeySyntax.Proofs.Token.Order
import MonkeySyntax.Proofs.Tree.Derived

/-! # What a source gathers

A parser over a source sees the tokens of the source in their order, and behind the last of them that
one over and over.

* `Parser.tokenAt_mem`, `Parser.start_tokenAt_le` — the tokens that are seen are those of the source, in
  their order.
* **`Parser.Spelt p`** — the tokens that are seen are spelt as their kinds ask for.
* **`exists_gathers`** — a source is gathered from its first token on by such a parser. -/

namespace MonkeySyntax

namespace Parser

variable {p q : Parser} {ts : List Token} {t : Token} {i j : Nat}

/-- The tokens that are seen are those that were given. -/
theorem tokenAt_mem (g : Grammar) (ts : List Token) (t : Token) (i : Nat) :
    (ofTokens g (ts ++ [t])).tokenAt i ∈ ts ++ [t] := by
  rw [tokenAt_ofTokens]
  by_cases hi : i < (ts ++ [t]).length
  · rw [List.getElem?_eq_getElem hi, Option.getD_some]
    exact List.getElem_mem hi
  · rw [List.getElem?_eq_none (Nat.le_of_not_lt hi), Option.getD_none]
    exact List.mem_append_right _ List.mem_cons_self

/-- Tokens in the order of their offsets are seen in that order. -/
theorem start_tokenAt_le (g : Grammar) (h : (ts ++ [t]).Pairwise (·.start < ·.start)) (hij : i ≤ j) :
    ((ofTokens g (ts ++ [t])).tokenAt i).start ≤ ((ofTokens g (ts ++ [t])).tokenAt j).start := by
  have hmem := tokenAt_mem g ts t i
  rw [tokenAt_ofTokens] at hmem ⊢
  rw [tokenAt_ofTokens]
  by_cases hj : j < (ts ++ [t]).length
  · have hi := Nat.lt_of_le_of_lt hij hj
    rw [List.getElem?_eq_getElem hi, List.getElem?_eq_getElem hj]
    rcases Nat.lt_or_eq_of_le hij with hlt | rfl
    · exact Nat.le_of_lt (List.pairwise_iff_getElem.1 h i j hi hj hlt)
    · exact le_rfl
  · -- behind all others there is the last one
    rw [List.getElem?_eq_none (Nat.le_of_not_lt hj), Option.getD_none]
    rcases List.mem_append.1 hmem with hmem | hmem
    · exact Nat.le_of_lt ((List.pairwise_append.1 h).2.2 _ hmem t List.mem_cons_self)
    · rw [List.mem_singleton.1 hmem]

/-- The tokens that are seen are **spelt as their kinds ask for**. -/
def Spelt (p : Parser) : Prop :=
  ∀ i, (p.tokenAt i).kind ≠ .eof → (p.tokenAt i).Spelt

theorem Spelt.current (hp : p.Spelt) (h : p.current.kind ≠ .eof) : p.current.Spelt :=
  hp p.index h

theorem Spelt.later (hp : p.Spelt) (h : Later p q) : q.Spelt := by
  intro i hi
  rw [h.tokenAt_eq] at hi ⊢
  exact hp i hi

/-- So are those of a parser that has not begun, when all of them but the end of the source are. -/
theorem spelt_ofTokens (g : Grammar) (hts : ∀ u ∈ ts, u.Spelt) (ht : t.kind = .eof) :
    (ofTokens g (ts ++ [t])).Spelt := by
  intro i hi
  rcases List.mem_append.1 (tokenAt_mem g ts t i) with hmem | hmem
  · exact hts _ hmem
  · rw [List.mem_singleton.1 hmem] at hi
    exact absurd ht hi

end Parser

/-- **A source is gathered** from its first token on. -/
theorem exists_gathers (file source : String) :
    ∃ ts t q, tokenize source file = ts ++ [t] ∧ t.kind = .eof ∧
      (Parser.ofTokens .standard (ts ++ [t])).Standard ∧
      (Parser.ofTokens .standard (ts ++ [t])).Spelt ∧
      (Parser.ofTokens .standard (ts ++ [t])).Gathers (parseAs file source).program.items q ∧
      (parseAs file source).diagnostics = q.diagnostics.toList := by
  obtain ⟨ts, t, hts, ht, hspelt⟩ := exists_tokenize_eq file source
  have hp : (Parser.ofTokens (.limited 256) (ts ++ [t])).Standard := Parser.standard_ofTokens ht
  obtain ⟨q, hq, hdiagnostics⟩ := gathers_parseTokens hp
  rw [parseAs, hts]
  exact ⟨ts, t, q, rfl, ht, hp, Parser.spelt_ofTokens _ hspelt ht, hq, hdiagnostics⟩

end MonkeySyntax
