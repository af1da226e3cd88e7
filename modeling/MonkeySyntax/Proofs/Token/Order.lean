import MonkeySyntax.Proofs.Token.Joining

/-! # The order of tokens

The tokens of a source stand one behind the other, as long as their offsets fit in 32 bits.

* `offsetBound` — where the offsets that fit end.
* **`Token.start`** — the offset at which a token begins, as a number.
* `start_of_fits` — an offset that fits is kept as it is.
* **`pairwise_start_tokensFrom`** — each token of a text begins before the ones behind it.
* **`pairwise_start_tokenize`** — so do the tokens of a source.
* `eq_of_pairwise_start` — two selections of such tokens are equal when they select the same. -/

namespace MonkeySyntax

/-- The first offset that does not fit in 32 bits, 2^32. -/
def offsetBound : Nat := 4_294_967_296

/-- **Where a token begins**: its byte offset. -/
def Token.start (t : Token) : Nat :=
  t.span.start.offset.toNat

/-- An offset that fits is kept as it is. -/
theorem start_of_fits {offset : Nat} (h : offset < offsetBound) (file : String) (length : Nat) :
    (Span.ofLength file offset length).start.offset.toNat = offset := by
  show (UInt32.ofNat offset).toNat = offset
  rw [UInt32.toNat_ofNat']
  exact Nat.mod_eq_of_lt h

/-- A text that is not empty has a length. -/
theorem byteLength_pos {cs : List Char} (h : cs ≠ []) : 0 < byteLength cs := by
  obtain ⟨c, ds, rfl⟩ := List.exists_cons_of_ne_nil h
  rw [byteLength_cons]
  have hpos := c.utf8Size_pos
  omega

/-- A character takes at least one byte. -/
theorem length_le_byteLength (cs : List Char) : cs.length ≤ byteLength cs := by
  induction cs with
  | nil => exact Nat.le_refl _
  | cons c cs ih =>
    have hpos := c.utf8Size_pos
    rw [byteLength_cons, List.length_cons]
    omega

/-- No token of a text begins before the text. -/
theorem le_start_of_mem_tokensFrom {file : String} {offset : Nat} {cs : List Char} {t : Token}
    (hfits : offset + byteLength cs < offsetBound) (h : t ∈ tokensFrom file offset cs) :
    offset ≤ t.start := by
  fun_induction tokensFrom file offset cs with
  | case1 offset =>
    rw [List.mem_singleton.1 h]
    exact Nat.le_of_eq (start_of_fits hfits file 0).symm
  | case2 offset c cs hblank ih =>
    rw [byteLength_cons] at hfits
    have hstart := ih (by omega) h
    omega
  | case3 offset c cs hblank ih =>
    have hlength := Lexeme.byteLength_rest c cs
    rcases List.mem_cons.1 h with rfl | h
    · exact Nat.le_of_eq (start_of_fits (by omega) file _).symm
    · have hstart := ih (by omega) h
      omega

/-- **Each token of a text begins before the ones behind it.** -/
theorem pairwise_start_tokensFrom {file : String} {offset : Nat} {cs : List Char}
    (hfits : offset + byteLength cs < offsetBound) :
    (tokensFrom file offset cs).Pairwise (·.start < ·.start) := by
  fun_induction tokensFrom file offset cs with
  | case1 offset => exact List.pairwise_singleton _ _
  | case2 offset c cs hblank ih =>
    rw [byteLength_cons] at hfits
    exact ih (by omega)
  | case3 offset c cs hblank ih =>
    have hlength := Lexeme.byteLength_rest c cs
    have hpos := byteLength_pos (Lexeme.text_ne_nil c cs)
    apply List.pairwise_cons.2
    refine ⟨fun t ht => ?_, ih (by omega)⟩
    -- the others begin where the text of the first one has ended
    have hstart := le_start_of_mem_tokensFrom (by omega) ht
    have hfirst : (Token.ofText file offset (lexeme c cs).kind (lexeme c cs).text).start = offset :=
      start_of_fits (by omega) file _
    omega

/-- The tokens of a source stand in the order of their offsets. -/
theorem pairwise_start_tokenize (file : String) {source : String}
    (hfits : byteLength source.toList < offsetBound) :
    (tokenize source file).Pairwise (·.start < ·.start) :=
  pairwise_start_tokensFrom (by omega)

/-- **Tokens in the order of their offsets** are determined by which tokens they are. -/
theorem eq_of_pairwise_start {ts us : List Token} (hts : ts.Pairwise (·.start < ·.start))
    (hus : us.Pairwise (·.start < ·.start)) (h : ∀ t, t ∈ ts ↔ t ∈ us) : ts = us := by
  have hnodup {vs : List Token} (hvs : vs.Pairwise (·.start < ·.start)) : vs.Nodup := by
    apply hvs.imp
    rintro t u hlt rfl
    exact absurd hlt (Nat.lt_irrefl _)
  apply ((List.perm_ext_iff_of_nodup (hnodup hts) (hnodup hus)).2 h).eq_of_pairwise _ hts hus
  intro t u _ _ hlt hgt
  omega

end MonkeySyntax
