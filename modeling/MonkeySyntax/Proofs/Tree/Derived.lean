import MonkeySyntax.Proofs.Grammar.Derivation
import MonkeySyntax.Proofs.Token.Spelling
import MonkeySyntax.Proofs.Tree.WellFormed

/-! # Derived trees are well formed

What the grammar derives from tokens that are spelt as their kinds ask for, as the tokens of a source
are, is a well-formed tree.

* `Token.Is.of_spelt`, `Identifier.wellFormed_ofToken` — tokens of a source in their places.
* **`Derives.wellFormed`** — every phrase, by induction on its derivation. -/

namespace MonkeySyntax

/-- The token is spelt as its kind asks for. -/
def Token.Spelt (t : Token) : Prop :=
  t.kind.Spelt t.text.toList

/-- A token of a kind with one spelling has that one. -/
theorem Token.Is.of_spelt {t : Token} {k : Kind} (h : t.Spelt) (hkind : t.kind = k)
    (hk : k.IsFixed) : t.Is k k.spelling := by
  subst hkind
  refine ⟨rfl, ?_⟩
  have htext := Kind.Spelt.eq_spelling h hk
  rwa [String.ofList_toList] at htext

/-- An identifier is a word that is no keyword. -/
theorem Identifier.wellFormed_ofToken {t : Token} (h : t.Spelt) (hkind : t.kind = .identifier) :
    (Identifier.ofToken t).WellFormed := by
  rw [Token.Spelt, hkind] at h
  -- of the spellings only a word has this kind
  generalize hk : Kind.identifier = k at h
  generalize htext : t.text.toList = text at h
  cases h with
  | @word c cs hword =>
    refine ⟨hkind, rfl, ?_, by rwa [name_ofToken, htext], ?_⟩
    · intro hempty
      rw [name_ofToken] at hempty
      rw [hempty] at htext
      exact absurd htext (by simp)
    · -- a keyword would have had its own kind
      rw [name_ofToken]
      intro hmem
      obtain ⟨⟨word, k⟩, hmem, hword⟩ := List.mem_map.1 hmem
      have hkeyword := Kind.ofWord_of_mem hmem
      rw [show word = t.text from hword, ← String.ofList_toList (s := t.text), htext, ← hk] at hkeyword
      have hall : ∀ p ∈ keywords, p.2 ≠ .identifier := by decide
      exact absurd hkeyword.symm (hall _ hmem)
  | number => exact absurd hk (by decide)
  | equals => exact absurd hk (by decide)
  | notEquals => exact absurd hk (by decide)
  | @symbol c =>
    rcases Kind.ofSymbol_eq c with hillegal | hmem
    · rw [hillegal] at hk
      exact absurd hk (by decide)
    · have hall : ∀ p ∈ symbols, p.2 ≠ .identifier := by decide
      exact absurd hk.symm (hall _ hmem)

/-- A number is a run of digits. -/
theorem Token.Spelt.digits {t : Token} (h : t.Spelt) (hkind : t.kind = .integer) :
    t.text.toList ≠ [] ∧ ∀ c ∈ t.text.toList, isDigit c = true := by
  rw [Token.Spelt, hkind] at h
  -- of the spellings only a run of digits has this kind
  generalize hk : Kind.integer = k at h
  generalize t.text.toList = text at h ⊢
  cases h with
  | number hdigits => exact ⟨List.cons_ne_nil _ _, hdigits⟩
  | @word c cs _ =>
    rcases Kind.ofWord_eq (String.ofList (c :: cs)) with hword | hmem
    · rw [hword] at hk
      exact absurd hk (by decide)
    · have hall : ∀ p ∈ keywords, p.2 ≠ .integer := by decide
      exact absurd hk.symm (hall _ hmem)
  | equals => exact absurd hk (by decide)
  | notEquals => exact absurd hk (by decide)
  | @symbol c =>
    rcases Kind.ofSymbol_eq c with hillegal | hmem
    · rw [hillegal] at hk
      exact absurd hk (by decide)
    · have hall : ∀ p ∈ symbols, p.2 ≠ .integer := by decide
      exact absurd hk.symm (hall _ hmem)

/-- The operators are spelt as they stand in the lists. -/
theorem Token.Spelt.mem_prefixSigns {t : Token} (h : t.Spelt)
    (hkind : t.kind = .bang ∨ t.kind = .minus) : (t.kind, t.text) ∈ prefixSigns := by
  rcases hkind with hkind | hkind
  · obtain ⟨-, htext⟩ := Token.Is.of_spelt h hkind (by decide)
    rw [hkind, htext]
    decide
  · obtain ⟨-, htext⟩ := Token.Is.of_spelt h hkind (by decide)
    rw [hkind, htext]
    decide

theorem Token.Spelt.mem_infixSigns {t : Token} (h : t.Spelt) {bp : Power}
    (hkind : t.kind.binaryPower? = some bp) : (t.kind, t.text) ∈ infixSigns := by
  have hall (k : Kind) (hk : k.binaryPower? = some bp) :
      k.IsFixed ∧ (k, k.spelling) ∈ infixSigns := by
    cases k <;> first | decide | exact absurd hk (by simp [Kind.binaryPower?])
  obtain ⟨hfixed, hmem⟩ := hall t.kind hkind
  rwa [(Token.Is.of_spelt h rfl hfixed).2]

/-- The trees of a phrase are well formed. -/
def Phrase.WellFormed : Phrase → Prop
  | .expr _ e | .part e _ => e.WellFormed
  | .arguments xs | .furtherArguments xs => Expr.AllWellFormed xs
  | .parameters is | .furtherParameters is => ∀ i ∈ is, i.WellFormed
  | .block b => b.WellFormed
  | .alternative b => Block.AlternativeWellFormed b
  | .statement s => s.WellFormed
  | .statements ss => Statement.AllWellFormed ss

/-- **What is derived from the tokens of a source is well formed.** -/
theorem Derives.wellFormed {phrase : Phrase} {ts : List Token} {n : Nat} (h : Derives phrase ts n)
    (hts : ∀ t ∈ ts, t.Spelt) : phrase.WellFormed := by
  -- the tokens of each part are among those of the phrase
  induction h with
  | expr _ _ ih => exact ih hts
  | identifier ht => exact Identifier.wellFormed_ofToken (hts _ (by simp)) ht
  | integer ht hvalue => exact ⟨ht, hvalue⟩
  | @boolean t ht =>
    rcases ht with ht | ht
    · show (Expr.boolean t (t.kind == .kwTrue)).WellFormed
      rw [ht]
      exact .of_spelt (hts t (by simp)) ht (by decide)
    · show (Expr.boolean t (t.kind == .kwTrue)).WellFormed
      rw [ht]
      exact .of_spelt (hts t (by simp)) ht (by decide)
  | grouping _ _ _ ih => exact ih fun t ht => hts t (by simp [ht])
  | conditional hi _ _ _ _ _ ihe iha ihb =>
    exact ⟨.of_spelt (hts _ (by simp)) hi (by decide), ihe fun t ht => hts t (by simp [ht]),
      iha fun t ht => hts t (by simp [ht]), ihb fun t ht => hts t (by simp [ht])⟩
  | function hf _ _ _ _ ihis ihb =>
    exact ⟨.of_spelt (hts _ (by simp)) hf (by decide), ihis fun t ht => hts t (by simp [ht]),
      ihb fun t ht => hts t (by simp [ht])⟩
  | prefixOp ho _ ih =>
    exact ⟨(hts _ (by simp)).mem_prefixSigns ho, rfl, ih fun t ht => hts t (by simp [ht])⟩
  | infixOp _ ho _ _ ihl ihr =>
    exact ⟨(hts _ (by simp)).mem_infixSigns ho, rfl, ihl fun t ht => hts t (by simp [ht]),
      ihr fun t ht => hts t (by simp [ht])⟩
  | call _ ho _ _ ihf ihxs =>
    exact ⟨.of_spelt (hts _ (by simp)) ho (by decide), ihf fun t ht => hts t (by simp [ht]),
      ihxs fun t ht => hts t (by simp [ht])⟩
  | noArguments => trivial
  | arguments _ _ ihx ihxs =>
    exact ⟨ihx fun t ht => hts t (by simp [ht]), ihxs fun t ht => hts t (by simp [ht])⟩
  | lastArgument => trivial
  | furtherArgument _ _ _ ihx ihxs =>
    exact ⟨ihx fun t ht => hts t (by simp [ht]), ihxs fun t ht => hts t (by simp [ht])⟩
  | noParameters => exact nofun
  | parameters ht _ ih =>
    exact List.forall_mem_cons.2 ⟨Identifier.wellFormed_ofToken (hts _ (by simp)) ht,
      ih fun t ht => hts t (by simp [ht])⟩
  | lastParameter => exact nofun
  | furtherParameter _ ht _ ih =>
    exact List.forall_mem_cons.2 ⟨Identifier.wellFormed_ofToken (hts _ (by simp)) ht,
      ih fun t ht => hts t (by simp [ht])⟩
  | block ho _ _ ih =>
    exact ⟨.of_spelt (hts _ (by simp)) ho (by decide), ih fun t ht => hts t (by simp [ht])⟩
  | noAlternative => trivial
  | alternative _ _ ih => exact ih fun t ht => hts t (by simp [ht])
  | binding hl hi _ _ _ ih =>
    exact ⟨.of_spelt (hts _ (by simp)) hl (by decide),
      Identifier.wellFormed_ofToken (hts _ (by simp)) hi, ih fun t ht => hts t (by simp [ht])⟩
  | returning hr _ _ ih =>
    exact ⟨.of_spelt (hts _ (by simp)) hr (by decide), ih fun t ht => hts t (by simp [ht])⟩
  | expression _ _ _ ih => exact ih fun t ht => hts t (by simp [ht])
  | noStatements => trivial
  | statements _ _ _ ihs ihss =>
    exact ⟨ihs fun t ht => hts t (by simp [ht]), ihss fun t ht => hts t (by simp [ht])⟩

/-- A program that is derived from the tokens of a source is well formed. -/
theorem Program.wellFormed_of_derives {p : Program} {ts : List Token} {n : Nat}
    (h : Derives (.statements p.statements) ts n) (hts : ∀ t ∈ ts, t.Spelt) : p.WellFormed :=
  ⟨h.wellFormed hts⟩

end MonkeySyntax
