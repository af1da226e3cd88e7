import MonkeySyntax.Proofs.Parsing.GatheringSource

/-! # What a program consists of

A program is put together from sound parts also where the source is broken: every node has a token
that it may be made of and a value that fits this token, and where a child is missing there is a
diagnostic that owns up to it.

* **`Item.Valid`** — what every node of a tree keeps to.
* `Item.Of.valid` — what is made of a token of a source keeps to it.
* **`Parser.Gathers.valid`**, **`Parser.Gathers.count_absent_le`** — the items on any way are valid, and
  of the missing children each one has been reported.
* **`parseAs_represents`** — both, for the program of any source. -/

namespace MonkeySyntax

/-- **A valid node**: its token is what its place asks for, and its value is what the token says. -/
def Item.Valid : Item → Prop
  | .name i => i.WellFormed
  | .number t value =>
    t.kind = .integer ∧ t.text ≠ "" ∧ (∀ c ∈ t.text.toList, isDigit c = true) ∧
      value = digitsValue t.text.toList ∧ 0 ≤ value ∧ value < integerBound
  | .truth t value => (t.kind = .kwTrue ∨ t.kind = .kwFalse) ∧ (value = true ↔ t.kind = .kwTrue)
  | .prefixSign t operator => operator = t.text ∧ (t.kind, operator) ∈ prefixSigns
  | .infixSign t operator => operator = t.text ∧ (t.kind, operator) ∈ infixSigns
  | .choice t => t.Is .kwIf "if"
  | .function t => t.Is .kwFn "fn"
  | .call t => t.Is .openParen "("
  | .brace t => t.Is .openBrace "\x7b"
  | .binding t => t.Is .kwLet "let"
  | .returning t => t.Is .kwReturn "return"
  | .absent => True

/-- A literal that has a value is a run of digits that stands for it. -/
theorem valid_number {t : Token} {value : Int} (hkind : t.kind = .integer)
    (hvalue : integerValue? t.text = some value) : (Item.number t value).Valid := by
  obtain ⟨⟨c, cs, hcs⟩, hdigits⟩ := exists_cons_of_integerValue? hvalue
  have hne : t.text.toList ≠ [] := by simp [hcs]
  rw [integerValue?_of_digits hne hdigits] at hvalue
  by_cases hbound : digitsValue t.text.toList < integerBound
  · rw [if_pos hbound, Option.some.injEq] at hvalue
    subst hvalue
    exact ⟨hkind, by simpa using hne, hdigits, rfl, Int.natCast_nonneg _, Int.ofNat_lt.2 hbound⟩
  · rw [if_neg hbound] at hvalue
    exact absurd hvalue (by simp)

/-- **What is made of a token of a source is valid.** -/
theorem Item.Of.valid {t : Token} {item : Item} (h : item.Of t) (ht : t.Spelt) : item.Valid := by
  cases h with
  | name h => exact Identifier.wellFormed_ofToken ht h
  | number h hvalue => exact valid_number h hvalue
  | truth h => exact ⟨h, by simp⟩
  | prefixSign h => exact ⟨rfl, ht.mem_prefixSigns h⟩
  | infixSign h => exact ⟨rfl, ht.mem_infixSigns h⟩
  | choice h => exact .of_spelt ht h (by decide)
  | function h => exact .of_spelt ht h (by decide)
  | call h => exact .of_spelt ht h (by decide)
  | brace h => exact .of_spelt ht h (by decide)
  | binding h => exact .of_spelt ht h (by decide)
  | returning h => exact .of_spelt ht h (by decide)

namespace Parser

variable {p q : Parser} {items : List Item}

/-- **The items on any way are valid.** -/
theorem Gathers.valid (h : Gathers p items q) (hspelt : p.Spelt) : ∀ item ∈ items, item.Valid := by
  intro item hmem
  rcases h.of_mem item hmem with rfl | ⟨i, hitem⟩
  · trivial
  · exact hitem.valid (hspelt i hitem.kind_ne_eof)

/-- **Of the missing children each one has been reported**: a diagnostic is added for it on the way. -/
theorem Gathers.count_absent_le (h : Gathers p items q) :
    p.diagnostics.size + items.count .absent ≤ q.diagnostics.size := by
  induction h with
  | stay => exact le_rfl
  | take hitem => rw [List.count_singleton, if_neg (by simpa using hitem.ne_absent), Nat.add_zero]
  | fault => simp [report]
  | missing _ _ ih =>
    rw [List.count_append, List.count_singleton_self]
    simpa [report, ← Nat.add_assoc] using ih
  | next _ _ ih ih' =>
    rw [advance_diagnostics] at ih'
    rw [List.count_append]
    omega
  | drop _ hkept ih =>
    have hcount := hkept.count_le .absent
    omega
  | clear _ ih => exact ih
  | nested _ _ ih => exact ih

end Parser

/-- **The program of any source is put together from sound parts**, whether or not the source is: each
of its nodes is valid, and of its missing children there are no more than there are diagnostics. In
particular no child is missing where nothing has been reported. -/
theorem parseAs_represents (file source : String) :
    (∀ item ∈ (parseAs file source).program.items, item.Valid) ∧
      (parseAs file source).program.absences ≤ (parseAs file source).diagnostics.length ∧
      ((parseAs file source).diagnostics = [] → (parseAs file source).program.absences = 0) := by
  obtain ⟨ts, t, q, -, -, -, hspelt, hway, hdiagnostics⟩ := exists_gathers file source
  have hcount : (parseAs file source).program.absences ≤ (parseAs file source).diagnostics.length := by
    have hsize := hway.count_absent_le
    rw [Parser.diagnostics_ofTokens, Array.size_empty, Nat.zero_add] at hsize
    rwa [hdiagnostics, Array.length_toList]
  refine ⟨hway.valid hspelt, hcount, fun hnone => ?_⟩
  rw [hnone] at hcount
  exact Nat.eq_zero_of_le_zero hcount

/-- Of a product only the first factor is there, which is a number; the second one is reported. -/
theorem parseAs_represents_product :
    (Item.number (.ofText defaultFileName 0 .integer ['4', '2']) 42).Valid ∧
      (parseAs defaultFileName "42 *").program.absences = 1 ∧
      (parseAs defaultFileName "42 *").diagnostics.length = 1 ∧
      (parseAs defaultFileName "42 *").program.absences ≤
        (parseAs defaultFileName "42 *").diagnostics.length := by
  obtain ⟨hvalid, hcount, -⟩ := parseAs_represents defaultFileName "42 *"
  refine ⟨hvalid _ ?_, ?_, ?_, hcount⟩
  · decide +kernel
  · decide +kernel
  · decide +kernel

end MonkeySyntax
