import MonkeySyntax.Proofs.Token.Order
import MonkeySyntax.Proofs.Token.Written

/-! # Tokens tile their source

A text is cut into blanks and tokens by turns. Each token is spelt as its kind asks for and is as long
as it can be, which leaves only one way to cut.

* `Kind.Spelt.illegal` — an illegal text is a character that no other kind begins with.
* `Lexeme.joins_rest` — a lexeme is as long as it can be.
* **`Tiles file offset cs ts`** — the text is cut into these tokens, piece by piece.
* **`tiles_iff`** — the tokens of a text are the only ones that it may be cut into.
* **`Tiling offset cs ts`** — the same told by the spans of the tokens: they follow each other, say what
  stands there, and leave out nothing but blanks.
* **`Tiles.tiling`** — what is cut piece by piece is a tiling. -/

namespace MonkeySyntax

/-! ### Kinds and texts -/

/-- An illegal text is **a single character that starts no other token**. -/
theorem Kind.Spelt.illegal {text : List Char} (h : Kind.illegal.Spelt text) :
    ∃ c, text = [c] ∧ isBlank c = false ∧
      ∀ (k : Kind) (cs : List Char), k.Spelt (c :: cs) → k = .illegal := by
  generalize hk : Kind.illegal = k at h
  cases h with
  | @symbol c hword hdigit hblank =>
    refine ⟨c, rfl, hblank, fun l cs hl => ?_⟩
    cases hl with
    | word hall =>
      have hc := hall c List.mem_cons_self
      rw [hword] at hc
      exact absurd hc (by decide)
    | number hall =>
      have hc := hall c List.mem_cons_self
      rw [hdigit] at hc
      exact absurd hc (by decide)
    | equals => exact absurd hk (by decide)
    | notEquals => exact absurd hk (by decide)
    | symbol => rfl
  | @word c cs =>
    rcases Kind.ofWord_eq (String.ofList (c :: cs)) with hword | hmem
    · rw [hword] at hk
      exact absurd hk (by decide)
    · have hall : ∀ p ∈ keywords, p.2 ≠ .illegal := by decide
      exact absurd hk.symm (hall _ hmem)
  | number => exact absurd hk (by decide)
  | equals => exact absurd hk (by decide)
  | notEquals => exact absurd hk (by decide)

/-- Of the symbols only two can be the beginning of a longer one. -/
theorem Kind.joins_ofSymbol {c d : Char} (h : (Kind.ofSymbol c).joins d = true) :
    (c = '=' ∨ c = '!') ∧ d = '=' := by
  have hall : ∀ p ∈ symbols, p.1 ≠ '=' → p.1 ≠ '!' → p.2.joins d = false := by
    simp [symbols, Kind.joins]
  rcases Kind.ofSymbol_eq c with hillegal | hmem
  · rw [hillegal] at h
    exact absurd h (by simp [joins])
  · by_cases heq : c = '='
    · subst heq
      exact ⟨.inl rfl, eq_of_beq h⟩
    · by_cases hbang : c = '!'
      · subst hbang
        exact ⟨.inr rfl, eq_of_beq h⟩
      · have hjoins := hall _ hmem heq hbang
        rw [hjoins] at h
        exact absurd h (by decide)

/-- **A lexeme is as long as it can be**: the character behind it does not belong to it. -/
theorem Lexeme.joins_rest (c : Char) (cs : List Char) :
    ∀ d ∈ (lexeme c cs).rest.head?, (lexeme c cs).kind.joins d = false := by
  have hstops (P : Char → Bool) : ∀ d ∈ (cs.dropWhile P).head?, P d = false := by
    intro d hd
    have hhead := List.head?_dropWhile_not P cs
    rw [Option.mem_def.1 hd] at hhead
    simpa using hhead
  unfold lexeme
  split
  · intro d hd
    rw [Kind.joins_ofWord]
    exact hstops isWordChar d hd
  · split
    · exact hstops isDigit
    · split
      · simp [Kind.joins]
      · simp [Kind.joins]
      · next hequals hbang =>
        -- a sign with `=` behind it would have been a longer one
        intro d hd
        obtain ⟨rest, rfl⟩ := List.head?_eq_some_iff.1 (Option.mem_def.1 hd)
        by_contra hjoins
        obtain ⟨rfl | rfl, rfl⟩ := Kind.joins_ofSymbol (Bool.not_eq_false _ ▸ hjoins)
        · exact hequals rest rfl rfl
        · exact hbang rest rfl rfl

/-! ### Piece by piece -/

/-- **The text is cut into tokens**: blanks and tokens by turns, where the text begins at the given
offset. -/
inductive Tiles (file : String) : Nat → List Char → List Token → Prop where
  /-- There are only blanks left before the end. -/
  | done {offset blanks} (hblanks : ∀ c ∈ blanks, isBlank c = true) :
      Tiles file offset blanks [.endOf file (offset + byteLength blanks)]
  /-- Behind some blanks there is a token, which goes on as far as it can. -/
  | token {offset blanks kind text rest ts} (hblanks : ∀ c ∈ blanks, isBlank c = true)
      (hspelt : kind.Spelt text) (hjoins : ∀ c ∈ rest.head?, kind.joins c = false)
      (hrest : Tiles file (offset + byteLength blanks + byteLength text) rest ts) :
      Tiles file offset (blanks ++ text ++ rest)
        (.ofText file (offset + byteLength blanks) kind text :: ts)

variable {file : String} {offset : Nat} {cs : List Char} {ts : List Token}

/-- One more blank in front. -/
theorem Tiles.blank {c : Char} (hc : isBlank c = true) (h : Tiles file (offset + c.utf8Size) cs ts) :
    Tiles file offset (c :: cs) ts := by
  cases h with
  | done hblanks =>
    have hdone : Tiles file offset (c :: cs) [.endOf file (offset + byteLength (c :: cs))] :=
      .done (List.forall_mem_cons.2 ⟨hc, hblanks⟩)
    rwa [byteLength_cons, ← Nat.add_assoc] at hdone
  | @token _ blanks kind text rest ts hblanks hspelt hjoins hrest =>
    have hlength : offset + c.utf8Size + byteLength blanks = offset + byteLength (c :: blanks) := by
      rw [byteLength_cons, Nat.add_assoc]
    rw [hlength] at hrest ⊢
    exact .token (List.forall_mem_cons.2 ⟨hc, hblanks⟩) hspelt hjoins hrest

/-- Blanks in front move the tokens by their length. -/
theorem tokensFrom_blanks {blanks : List Char} (h : ∀ c ∈ blanks, isBlank c = true) (file : String)
    (offset : Nat) (cs : List Char) :
    tokensFrom file offset (blanks ++ cs) = tokensFrom file (offset + byteLength blanks) cs := by
  induction blanks generalizing offset with
  | nil => rfl
  | cons c blanks ih =>
    obtain ⟨hc, hblanks⟩ := List.forall_mem_cons.1 h
    rw [List.cons_append, tokensFrom_blank hc, ih hblanks, byteLength_cons, Nat.add_assoc]

/-- **The tokens of a text are the only ones that it may be cut into.** -/
theorem tiles_iff : Tiles file offset cs ts ↔ tokensFrom file offset cs = ts := by
  constructor
  · intro h
    induction h with
    | @done offset blanks hblanks =>
      have htokens := tokensFrom_blanks hblanks file offset []
      rwa [List.append_nil, tokensFrom_nil] at htokens
    | token hblanks hspelt hjoins _ ih =>
      obtain ⟨c, cs, rfl, hblank, hlexeme⟩ := lexeme_of_spelt hspelt hjoins
      rw [List.append_assoc, tokensFrom_blanks hblanks, List.cons_append, tokensFrom_lexeme hblank,
        hlexeme, ih]
  · rintro rfl
    fun_induction tokensFrom file offset cs with
    | case1 offset => exact .done (List.forall_mem_nil _)
    | case2 offset c cs hblank ih => exact ih.blank hblank
    | case3 offset c cs hblank ih =>
      -- the token stands at the very beginning
      have htoken : Tiles file offset ([] ++ (lexeme c cs).text ++ (lexeme c cs).rest) _ :=
        .token (List.forall_mem_nil _) (spelt_lexeme (Bool.eq_false_iff.2 hblank) cs)
          (Lexeme.joins_rest c cs) ih
      rwa [List.nil_append, Lexeme.append_rest] at htoken

/-! ### Told by the spans -/

/-- **Where a token ends**: the offset of the first byte behind it. -/
def Token.stop (t : Token) : Nat :=
  t.span.stop.offset.toNat

/-- **The tokens tile the text**, which begins at the given offset. -/
structure Tiling (offset : Nat) (cs : List Char) (ts : List Token) : Prop where
  /-- What a token says stands in the text from its start up to its stop, and the character behind it,
  if there is one, does not belong to it. -/
  piece : ∀ t ∈ ts, ∃ before behind, cs = before ++ t.text.toList ++ behind ∧
    t.start = offset + byteLength before ∧ t.stop = t.start + byteLength t.text.toList ∧
    ∀ c ∈ behind.head?, t.kind.joins c = false
  /-- No token is empty. -/
  nonempty : ∀ t ∈ ts, t.start < t.stop
  /-- Each token stops before the ones behind it start. -/
  ordered : ts.Pairwise (·.stop ≤ ·.start)
  /-- A character that lies in no token is a blank. -/
  blank : ∀ before c behind, cs = before ++ c :: behind →
    (∀ t ∈ ts, offset + byteLength before < t.start ∨ t.stop ≤ offset + byteLength before) →
      isBlank c = true
  /-- The kind of a token is the one that its text determines. -/
  kind_iff : ∀ t ∈ ts, ∀ k : Kind, k.WrittenAs t.text.toList ↔ t.kind = k

/-- An offset that fits is kept as it is, where a token stops too. -/
theorem stop_ofText {offset : Nat} {text : List Char} (h : offset + byteLength text < offsetBound)
    (file : String) (k : Kind) :
    (Token.ofText file offset k text).stop = offset + byteLength text := by
  show (UInt32.ofNat (offset + byteLength text)).toNat = _
  rw [UInt32.toNat_ofNat']
  exact Nat.mod_eq_of_lt h

/-- Only blanks are a tiling without tokens. -/
theorem tiling_nil {blanks : List Char} (h : ∀ c ∈ blanks, isBlank c = true) :
    Tiling offset blanks [] where
  piece := List.forall_mem_nil _
  nonempty := List.forall_mem_nil _
  ordered := List.Pairwise.nil
  blank before c behind hcs _ := h c (by simp [hcs])
  kind_iff := List.forall_mem_nil _

/-- **One more token in front** of a tiling, with some blanks before it. -/
theorem Tiling.cons {blanks text rest : List Char} {kind : Kind}
    (hfits : offset + byteLength (blanks ++ text ++ rest) < offsetBound)
    (hblanks : ∀ c ∈ blanks, isBlank c = true) (hspelt : kind.Spelt text)
    (hjoins : ∀ c ∈ rest.head?, kind.joins c = false)
    (h : Tiling (offset + byteLength blanks + byteLength text) rest ts) :
    Tiling offset (blanks ++ text ++ rest)
      (.ofText file (offset + byteLength blanks) kind text :: ts) := by
  rw [byteLength_append, byteLength_append] at hfits
  have hstart : (Token.ofText file (offset + byteLength blanks) kind text).start =
      offset + byteLength blanks := start_of_fits (by omega) file _
  have hstop := stop_ofText (by omega : offset + byteLength blanks + byteLength text < offsetBound)
    file kind
  have htext : (Token.ofText file (offset + byteLength blanks) kind text).text.toList = text :=
    String.toList_ofList
  have hpos : 0 < byteLength text := by
    obtain ⟨c, cs, rfl, -⟩ := lexeme_of_spelt hspelt hjoins
    exact byteLength_pos (List.cons_ne_nil c cs)
  -- no token behind the first one starts before that one stops
  have hbehind : ∀ t ∈ ts, offset + byteLength blanks + byteLength text ≤ t.start := by
    intro t ht
    obtain ⟨before, -, -, hstart, -⟩ := h.piece t ht
    omega
  refine ⟨?_, ?_, ?_, ?_, ?_⟩
  · refine List.forall_mem_cons.2 ⟨⟨blanks, rest, by rw [htext], hstart, ?_, hjoins⟩, fun t ht => ?_⟩
    · rw [hstart, hstop, htext]
    · obtain ⟨before, behind, hrest, hstart, hpiece⟩ := h.piece t ht
      refine ⟨blanks ++ text ++ before, behind, by simp [hrest], ?_, hpiece⟩
      rw [hstart, byteLength_append, byteLength_append]
      omega
  · exact List.forall_mem_cons.2 ⟨by omega, h.nonempty⟩
  · exact List.pairwise_cons.2 ⟨fun t ht => by rw [hstop]; exact hbehind t ht, h.ordered⟩
  · intro before c behind hsplit houtside
    obtain ⟨hfirst, hothers⟩ := List.forall_mem_cons.1 houtside
    rw [hstart, hstop] at hfirst
    rw [List.append_assoc] at hsplit
    rcases List.append_eq_append_iff.1 hsplit with ⟨inside, rfl, hinside⟩ | ⟨inside, hinside, -⟩
    · rw [byteLength_append] at hfirst hothers
      rcases List.append_eq_append_iff.1 hinside with ⟨further, rfl, hrest⟩ | ⟨further, hfurther, hrest⟩
      · -- the character stands behind the token
        rw [byteLength_append] at hothers
        apply h.blank further c behind hrest
        intro t ht
        have hplace := hothers t ht
        omega
      · cases further with
        | nil =>
          apply h.blank [] c behind (by simpa using hrest.symm)
          intro t ht
          have hplace := hothers t ht
          rw [List.append_nil] at hfurther
          rw [byteLength_nil, hfurther]
          omega
        | cons d further =>
          -- the character stands inside the token
          have hlength := congrArg byteLength hfurther
          have hsize := d.utf8Size_pos
          rw [byteLength_append, byteLength_cons] at hlength
          omega
    · cases inside with
      | nil =>
        -- the character is the first one of the token
        rw [List.append_nil] at hinside
        rw [← hinside] at hfirst
        omega
      | cons d inside =>
        exact hblanks c (by simp_all)
  · refine List.forall_mem_cons.2 ⟨fun k => ?_, h.kind_iff⟩
    rw [htext, Kind.writtenAs_iff_spelt]
    exact ⟨hspelt.unique, fun hk => hk ▸ hspelt⟩

/-- **What is cut piece by piece is a tiling**, as long as the offsets fit; behind it there is only the
end of the text. -/
theorem Tiles.tiling (h : Tiles file offset cs ts) (hfits : offset + byteLength cs < offsetBound) :
    ∃ us, ts = us ++ [.endOf file (offset + byteLength cs)] ∧ Tiling offset cs us := by
  induction h with
  | done hblanks => exact ⟨[], rfl, tiling_nil hblanks⟩
  | @token offset blanks kind text rest ts hblanks hspelt hjoins _ ih =>
    have hlength : offset + byteLength (blanks ++ text ++ rest) =
        offset + byteLength blanks + byteLength text + byteLength rest := by
      rw [byteLength_append, byteLength_append]
      omega
    obtain ⟨us, rfl, htiling⟩ := ih (hlength ▸ hfits)
    exact ⟨_ :: us, by rw [hlength, List.cons_append], htiling.cons hfits hblanks hspelt hjoins⟩

end MonkeySyntax
