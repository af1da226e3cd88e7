import MonkeySyntax.Proofs.Token.Spelling

/-! # Texts as pieces of a source

What a piece of text is cut into depends on the first character behind it. The pieces of a source are
therefore looked at together with the text that follows.

* **`Lexes text rest P`** — where `rest` follows, the text is cut into tokens of which `P` holds,
  wherever it stands in the source.
* `Lexes.nil`, `Lexes.blank`, `Lexes.spelling`, `Lexes.append` — a piece is put together from its
  tokens and from other pieces.
* `Breaks rest` — no word or number goes on in the text that follows. -/

namespace MonkeySyntax

/-- **The text is cut into tokens of which `P` holds**, where `rest` follows. -/
def Lexes (text rest : List Char) (P : List Token → Prop) : Prop :=
  ∀ file offset, ∃ ts offset',
    tokensFrom file offset (text ++ rest) = ts ++ tokensFrom file offset' rest ∧ P ts

/-- No word or number **goes on** in the text that follows. -/
def Breaks (rest : List Char) : Prop :=
  ∀ c ∈ rest.head?, isWordChar c = false ∧ isDigit c = false

@[simp] theorem breaks_nil : Breaks [] := by simp [Breaks]

theorem breaks_cons {c : Char} {cs : List Char} (h : isWordChar c = false ∧ isDigit c = false) :
    Breaks (c :: cs) := by
  simpa [Breaks] using h

variable {text us cs rest : List Char} {P Q : List Token → Prop}

theorem Lexes.imp (h : Lexes text rest P) (hPQ : ∀ ts, P ts → Q ts) : Lexes text rest Q := by
  intro file offset
  obtain ⟨ts, offset', hts, hP⟩ := h file offset
  exact ⟨ts, offset', hts, hPQ ts hP⟩

/-- Nothing has no tokens. -/
theorem Lexes.nil : Lexes [] rest (· = []) :=
  fun _ offset => ⟨[], offset, rfl, rfl⟩

/-- A blank has no token. -/
theorem Lexes.blank (h : Lexes cs rest P) : Lexes (' ' :: cs) rest P := by
  intro file offset
  obtain ⟨ts, offset', hts, hP⟩ := h file (offset + ' '.utf8Size)
  exact ⟨ts, offset', by rw [List.cons_append, tokensFrom_blank (by decide), hts], hP⟩

/-- One piece behind another. -/
theorem Lexes.append (ht : Lexes text (us ++ rest) P) (hu : Lexes us rest Q) :
    Lexes (text ++ us) rest fun ts => ∃ as bs, ts = as ++ bs ∧ P as ∧ Q bs := by
  intro file offset
  obtain ⟨as, offset', has, hP⟩ := ht file offset
  obtain ⟨bs, offset'', hbs, hQ⟩ := hu file offset'
  exact ⟨as ++ bs, offset'', by rw [List.append_assoc, has, hbs, List.append_assoc], as, bs, rfl, hP, hQ⟩

/-- **A spelling is a token**, unless the character behind it joins it. -/
theorem Lexes.spelling {k : Kind} (h : k.Spelt text) (rest : List Char)
    (hjoin : ∀ c ∈ rest.head?, k.joins c = false) :
    Lexes text rest fun ts => ∃ t, ts = [t] ∧ t.kind = k ∧ t.text = String.ofList text := by
  intro file offset
  obtain ⟨c, cs, rfl, hblank, hlexeme⟩ := lexeme_of_spelt h hjoin
  refine ⟨[.ofText file offset k (c :: cs)], offset + byteLength (c :: cs), ?_, _, rfl, rfl, rfl⟩
  rw [List.cons_append, tokensFrom_lexeme hblank, hlexeme]
  rfl

/-- A symbol that nothing joins, and what comes behind it. -/
theorem Lexes.symbol {c : Char} {k : Kind} (h : (c, k) ∈ symbols) (hjoin : ∀ d, k.joins d = false)
    (hcs : Lexes cs rest P) :
    Lexes (c :: cs) rest fun ts => ∃ t us, ts = t :: us ∧ t.kind = k ∧ P us := by
  have hsymbol := (Lexes.spelling (spelt_of_mem_symbols h) (cs ++ rest)
    fun d _ => hjoin d).append hcs
  refine hsymbol.imp ?_
  rintro ts ⟨as, bs, rfl, ⟨t, rfl, ht, -⟩, hP⟩
  exact ⟨t, bs, rfl, ht, hP⟩

/-- A whole source is one piece with nothing behind it. -/
theorem Lexes.tokenize {source : String} (h : Lexes source.toList [] P) (file : String) :
    P (tokenize source file).dropLast := by
  obtain ⟨ts, offset, hts, hP⟩ := h file 0
  rw [List.append_nil, tokensFrom_nil] at hts
  rwa [MonkeySyntax.tokenize, hts, List.dropLast_concat]

end MonkeySyntax
