import Mathlib.Data.Nat.Basic
import Mathlib.Tactic.Common
import MonkeySyntax.Token.Lexeme

/-! # How tokens are spelt

The texts that a token of each kind may have, stated apart from the cutting of a source.

* **`Kind.Spelt kind text`** — the text is one of the spellings of the kind.
* **`Kind.spelling`** — the spelling of a kind that has only one; `Kind.Spelt.eq_spelling`.
* `spelt_lexeme` — every lexeme is spelt as its kind asks for.
* **`lexeme_of_spelt`** — every spelling is one lexeme, unless the character behind it joins it.
* **`Kind.Spelt.append_inj`** — a spelling and what stands behind it are told apart, and so
  `Kind.Spelt.unique`, the kind of a text.
* **`tokensFrom_eq_append`** — the tokens of a text are spelt as their kinds ask for, and the one
  `eof` token stands behind them. -/

namespace MonkeySyntax

/-! ### The characters -/

/-- Letters, digits and signs are no blanks. -/
theorem isBlank_of_isWordChar {c : Char} (h : isWordChar c = true) : isBlank c = false := by
  by_contra hblank
  rw [Bool.not_eq_false] at hblank
  simp only [isBlank, Bool.or_eq_true, beq_iff_eq] at hblank
  rcases hblank with ((rfl | rfl) | rfl) | rfl <;> exact absurd h (by decide)

theorem isBlank_of_isDigit {c : Char} (h : isDigit c = true) : isBlank c = false := by
  by_contra hblank
  rw [Bool.not_eq_false] at hblank
  simp only [isBlank, Bool.or_eq_true, beq_iff_eq] at hblank
  rcases hblank with ((rfl | rfl) | rfl) | rfl <;> exact absurd h (by decide)

/-- No digit is a letter. -/
theorem isWordChar_of_isDigit {c : Char} (h : isDigit c = true) : isWordChar c = false := by
  obtain ⟨-, hhigh⟩ := Char.isDigit_iff_toNat.1 h
  have hle : c.toNat ≤ 57 := hhigh
  have hne : c ≠ '_' := by
    rintro rfl
    exact absurd h (by decide)
  -- all letters come behind the digits
  have hupper : ¬ c.isUpper = true := by
    intro hc
    have hlow : 65 ≤ c.toNat :=
      (of_decide_eq_true (p := c.val ≥ 'A'.val ∧ c.val ≤ 'Z'.val) hc).1
    omega
  have hlower : ¬ c.isLower = true := by
    intro hc
    have hlow : 97 ≤ c.toNat := of_decide_eq_true (Bool.and_eq_true_iff.1 hc).1
    omega
  rw [isWordChar, Bool.or_eq_false_iff]
  refine ⟨?_, by simpa using hne⟩
  rw [Bool.eq_false_iff]
  exact fun hc => (Bool.or_eq_true_iff.1 hc).elim hupper hlower

/-! ### Spellings -/

/-- **The spellings of a kind.** -/
inductive Kind.Spelt : Kind → List Char → Prop where
  /-- A word is a keyword or an identifier. -/
  | word {c cs} (h : ∀ d ∈ c :: cs, isWordChar d = true) :
      Spelt (.ofWord (String.ofList (c :: cs))) (c :: cs)
  /-- A number is a run of digits. -/
  | number {c cs} (h : ∀ d ∈ c :: cs, isDigit d = true) : Spelt .integer (c :: cs)
  /-- The sign `==`. -/
  | equals : Spelt .equals ['=', '=']
  /-- The sign `!=`. -/
  | notEquals : Spelt .notEquals ['!', '=']
  /-- Any other character is a symbol by itself, or illegal. -/
  | symbol {c} (hword : isWordChar c = false) (hdigit : isDigit c = false)
      (hblank : isBlank c = false) : Spelt (.ofSymbol c) [c]

/-- A word is an identifier unless it is one of the keywords. -/
theorem Kind.ofWord_eq (word : String) :
    Kind.ofWord word = .identifier ∨ (word, Kind.ofWord word) ∈ keywords := by
  rw [ofWord]
  cases h : keywords.lookup word with
  | none => exact .inl rfl
  | some k =>
    obtain ⟨before, behind, hsplit, -⟩ := List.lookup_eq_some_iff.1 h
    exact .inr (by simp [hsplit])

/-- A character is illegal unless it is one of the symbols. -/
theorem Kind.ofSymbol_eq (c : Char) :
    Kind.ofSymbol c = .illegal ∨ (c, Kind.ofSymbol c) ∈ symbols := by
  rw [ofSymbol]
  cases h : symbols.lookup c with
  | none => exact .inl rfl
  | some k =>
    obtain ⟨before, behind, hsplit, -⟩ := List.lookup_eq_some_iff.1 h
    exact .inr (by simp [hsplit])

/-- The **spelling** of a kind that has only one. -/
def Kind.spelling (k : Kind) : String :=
  ((keywords.find? (·.2 == k)).map Prod.fst).getD k.name

/-- A kind has one spelling unless it leaves its text open. -/
def Kind.IsFixed (k : Kind) : Prop :=
  k ∉ [Kind.eof, .illegal, .identifier, .integer]

instance (k : Kind) : Decidable k.IsFixed := inferInstanceAs (Decidable (_ ∉ _))

/-- The spelling of such a kind is the only one. -/
theorem Kind.Spelt.eq_spelling {k : Kind} {text : List Char} (h : k.Spelt text) (hk : k.IsFixed) :
    String.ofList text = k.spelling := by
  cases h with
  | @word c cs _ =>
    have hall : ∀ p ∈ keywords, p.1 = p.2.spelling := by decide
    rcases Kind.ofWord_eq (String.ofList (c :: cs)) with h | h
    · rw [h] at hk
      exact absurd hk (by decide)
    · exact hall _ h
  | number => exact absurd hk (by decide)
  | equals => rfl
  | notEquals => rfl
  | @symbol c =>
    have hall : ∀ p ∈ symbols, String.ofList [p.1] = p.2.spelling := by decide
    rcases Kind.ofSymbol_eq c with h | h
    · rw [h] at hk
      exact absurd hk (by decide)
    · exact hall _ h

/-- No word stands for two keywords. -/
theorem Kind.ofWord_of_mem {word : String} {k : Kind} (h : (word, k) ∈ keywords) :
    Kind.ofWord word = k := by
  have hall : ∀ p ∈ keywords, Kind.ofWord p.1 = p.2 := by decide
  exact hall _ h

/-- Keywords are spelt as they stand in the list. -/
theorem spelt_of_mem_keywords {word : String} {k : Kind} (h : (word, k) ∈ keywords) :
    k.Spelt word.toList := by
  have hall : ∀ p ∈ keywords, p.1.toList ≠ [] ∧ p.1.toList.all isWordChar = true := by decide
  obtain ⟨hne, hword⟩ := hall _ h
  obtain ⟨c, cs, hcs⟩ := List.exists_cons_of_ne_nil hne
  rw [hcs, List.all_eq_true] at hword
  have hspelt : (Kind.ofWord (String.ofList (c :: cs))).Spelt (c :: cs) := .word hword
  rwa [← hcs, String.ofList_toList, Kind.ofWord_of_mem h] at hspelt

/-- Symbols are spelt as they stand in the list. -/
theorem spelt_of_mem_symbols {c : Char} {k : Kind} (h : (c, k) ∈ symbols) : k.Spelt [c] := by
  have hall : ∀ p ∈ symbols, Kind.ofSymbol p.1 = p.2 ∧ isWordChar p.1 = false ∧
      isDigit p.1 = false ∧ isBlank p.1 = false := by decide
  obtain ⟨hkind, hword, hdigit, hblank⟩ := hall _ h
  have hspelt : (Kind.ofSymbol c).Spelt [c] := .symbol hword hdigit hblank
  rwa [show Kind.ofSymbol c = k from hkind] at hspelt

/-- A kind that has only one spelling does have it. -/
theorem spelt_spelling {k : Kind} (hk : k.IsFixed) : k.Spelt k.spelling.toList := by
  cases k <;> first
    | exact spelt_of_mem_symbols (by decide)
    | exact spelt_of_mem_keywords (by decide)
    | exact .equals
    | exact .notEquals
    | exact absurd hk (by decide)

/-- Nothing is spelt like the end of a source. -/
theorem Kind.Spelt.ne_eof {k : Kind} {text : List Char} (h : k.Spelt text) : k ≠ .eof := by
  cases h with
  | @word c cs _ =>
    have hall : ∀ p ∈ keywords, p.2 ≠ .eof := by decide
    rcases Kind.ofWord_eq (String.ofList (c :: cs)) with h | h
    · rw [h]
      decide
    · exact hall _ h
  | number | equals | notEquals => decide
  | @symbol c =>
    have hall : ∀ p ∈ symbols, p.2 ≠ .eof := by decide
    rcases Kind.ofSymbol_eq c with h | h
    · rw [h]
      decide
    · exact hall _ h

/-! ### Lexemes and tokens -/

/-- Every lexeme is spelt as its kind asks for. -/
theorem spelt_lexeme {c : Char} (hblank : isBlank c = false) (cs : List Char) :
    (lexeme c cs).kind.Spelt (lexeme c cs).text := by
  unfold lexeme
  split
  · next hword =>
    refine .word (List.forall_mem_cons.2 ⟨hword, fun d hd => ?_⟩)
    exact List.all_eq_true.1 List.all_takeWhile d hd
  · next hword =>
    split
    · next hdigit =>
      refine .number (List.forall_mem_cons.2 ⟨hdigit, fun d hd => ?_⟩)
      exact List.all_eq_true.1 List.all_takeWhile d hd
    · next hdigit =>
      split
      · exact .equals
      · exact .notEquals
      · exact .symbol (Bool.eq_false_iff.2 hword) (Bool.eq_false_iff.2 hdigit) hblank

/-- Whether a character behind a text of some kind **would belong to it**. -/
def Kind.joins : Kind → Char → Bool
  | .identifier, c | .kwFn, c | .kwLet, c | .kwTrue, c | .kwFalse, c | .kwIf, c | .kwElse, c
  | .kwReturn, c => isWordChar c
  | .integer, c => isDigit c
  | .assign, c | .bang, c => c == '='
  | _, _ => false

/-- What joins a word is a letter. -/
theorem Kind.joins_ofWord (word : String) (c : Char) : (Kind.ofWord word).joins c = isWordChar c := by
  rcases ofWord_eq word with h | h
  · rw [h]
    rfl
  · have hall : ∀ p ∈ keywords, p.2.joins = isWordChar := by
      simp only [keywords, List.forall_mem_cons, List.not_mem_nil]
      exact ⟨rfl, rfl, rfl, rfl, rfl, rfl, rfl, nofun⟩
    exact congrFun (hall _ h) c

/-- A run of elements is taken as a whole where no further one follows. -/
theorem takeWhile_append_of_head {α : Type} {P : α → Bool} {cs rest : List α}
    (hcs : ∀ c ∈ cs, P c = true) (hrest : ∀ c ∈ rest.head?, P c = false) :
    (cs ++ rest).takeWhile P = cs ∧ (cs ++ rest).dropWhile P = rest := by
  rw [List.takeWhile_append_of_pos hcs, List.dropWhile_append_of_pos hcs]
  cases rest with
  | nil => simp
  | cons d rest => simp [hrest d rfl]

/-- **Every spelling is one lexeme**, unless the character behind it joins it. -/
theorem lexeme_of_spelt {k : Kind} {text rest : List Char} (h : k.Spelt text)
    (hrest : ∀ c ∈ rest.head?, k.joins c = false) :
    ∃ c cs, text = c :: cs ∧ isBlank c = false ∧ lexeme c (cs ++ rest) = ⟨k, text, rest⟩ := by
  cases h with
  | @word c cs hall =>
    obtain ⟨hc, hcs⟩ := List.forall_mem_cons.1 hall
    obtain ⟨htake, hdrop⟩ := takeWhile_append_of_head hcs fun d hd => by
      rw [← hrest d hd, Kind.joins_ofWord]
    refine ⟨c, cs, rfl, isBlank_of_isWordChar hc, ?_⟩
    unfold lexeme
    rw [if_pos hc, htake, hdrop]
  | @number c cs hall =>
    obtain ⟨hc, hcs⟩ := List.forall_mem_cons.1 hall
    obtain ⟨htake, hdrop⟩ := takeWhile_append_of_head hcs fun d hd => hrest d hd
    refine ⟨c, cs, rfl, isBlank_of_isDigit hc, ?_⟩
    unfold lexeme
    rw [if_neg (by simp [isWordChar_of_isDigit hc]), if_pos hc, htake, hdrop]
  | equals => exact ⟨'=', ['='], rfl, by decide, rfl⟩
  | notEquals => exact ⟨'!', ['='], rfl, by decide, rfl⟩
  | @symbol c hword hdigit hblank =>
    refine ⟨c, [], rfl, hblank, ?_⟩
    unfold lexeme
    rw [if_neg (by simp [hword]), if_neg (by simp [hdigit]), List.nil_append]
    -- only `=` behind it would make a longer symbol
    split
    · exact absurd (hrest '=' rfl) (by decide)
    · exact absurd (hrest '=' rfl) (by decide)
    · rfl

/-- **A spelling and what stands behind it** are told apart, unless it goes on there. -/
theorem Kind.Spelt.append_inj {k l : Kind} {text text' rest rest' : List Char} (hk : k.Spelt text)
    (hl : l.Spelt text') (hrest : ∀ c ∈ rest.head?, k.joins c = false)
    (hrest' : ∀ c ∈ rest'.head?, l.joins c = false) (h : text ++ rest = text' ++ rest') :
    k = l ∧ text = text' ∧ rest = rest' := by
  obtain ⟨c, cs, rfl, -, hlexeme⟩ := lexeme_of_spelt hk hrest
  obtain ⟨d, ds, rfl, -, hlexeme'⟩ := lexeme_of_spelt hl hrest'
  rw [List.cons_append, List.cons_append] at h
  obtain ⟨rfl, htail⟩ := List.cons.inj h
  rw [htail, hlexeme', Lexeme.mk.injEq] at hlexeme
  exact ⟨hlexeme.1.symm, hlexeme.2.1.symm, hlexeme.2.2.symm⟩

/-- **The kind of a text is determined** by the text. -/
theorem Kind.Spelt.unique {k l : Kind} {text : List Char} (hk : k.Spelt text) (hl : l.Spelt text) :
    k = l := by
  have hnothing (k : Kind) : ∀ c ∈ ([] : List Char).head?, k.joins c = false := by simp
  exact (hk.append_inj hl (hnothing k) (hnothing l) rfl).1

/-- **The tokens of a text** are spelt as their kinds ask for, and one token `eof` stands behind
them. -/
theorem tokensFrom_eq_append (file : String) (offset : Nat) (cs : List Char) :
    ∃ ts, tokensFrom file offset cs = ts ++ [.endOf file (offset + byteLength cs)] ∧
      ∀ t ∈ ts, t.kind.Spelt t.text.toList := by
  fun_induction tokensFrom file offset cs with
  | case1 offset => exact ⟨[], rfl, by simp⟩
  | case2 offset c cs hblank ih =>
    obtain ⟨ts, hts, hspelt⟩ := ih
    exact ⟨ts, by rw [hts, byteLength_cons, Nat.add_assoc], hspelt⟩
  | case3 offset c cs hblank ih =>
    obtain ⟨ts, hts, hspelt⟩ := ih
    refine ⟨.ofText file offset (lexeme c cs).kind (lexeme c cs).text :: ts, ?_,
      List.forall_mem_cons.2 ⟨?_, hspelt⟩⟩
    · rw [hts, List.cons_append, Nat.add_assoc, ← byteLength_append, Lexeme.append_rest]
    · have h := spelt_lexeme (Bool.eq_false_iff.2 hblank) cs
      rwa [Token.ofText, String.toList_ofList]

end MonkeySyntax
