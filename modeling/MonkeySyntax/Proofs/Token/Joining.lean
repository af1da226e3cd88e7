import MonkeySyntax.Proofs.Token.Spelling

/-! # The tokens of two texts with a blank between them

No token reaches over a blank, so the tokens of the joined text are those of the first text and then
those of the second one, which have been moved.

* **`lexeme_append_blank`** — the first lexeme of a text stays the same when a blank is put behind it.
* **`tokensFrom_append_blank`** — the tokens of the joined text.
* `Token.moved`, **`tokensFrom_add`** — what stands further back in a source is cut in the same way.
* **`tokenize_line`** — the tokens of two lines.
* `offset_le_of_mem_tokensFrom` — the tokens of a text begin inside it. -/

namespace MonkeySyntax

/-! ### A blank ends every token -/

/-- A run of elements stops at one that does not belong to it. -/
theorem takeWhile_append_cons {α : Type} {P : α → Bool} {d : α} (hd : P d = false) (cs ds : List α) :
    (cs ++ d :: ds).takeWhile P = cs.takeWhile P := by
  induction cs with
  | nil => simp [hd]
  | cons c cs ih =>
    rw [List.cons_append, List.takeWhile_cons, List.takeWhile_cons, ih]

theorem dropWhile_append_cons {α : Type} {P : α → Bool} {d : α} (hd : P d = false) (cs ds : List α) :
    (cs ++ d :: ds).dropWhile P = cs.dropWhile P ++ d :: ds := by
  induction cs with
  | nil => simp [hd]
  | cons c cs ih =>
    rw [List.cons_append, List.dropWhile_cons, List.dropWhile_cons]
    split
    · exact ih
    · rfl

/-- **A lexeme stays the same** when a blank is put behind the text. -/
theorem lexeme_append_blank {d : Char} (hd : isBlank d = true) (c : Char) (cs ds : List Char) :
    lexeme c (cs ++ d :: ds) =
      ⟨(lexeme c cs).kind, (lexeme c cs).text, (lexeme c cs).rest ++ d :: ds⟩ := by
  have hword : isWordChar d = false := by
    by_contra h
    exact absurd (isBlank_of_isWordChar (Bool.not_eq_false _ ▸ h)) (by simp [hd])
  have hdigit : isDigit d = false := by
    by_contra h
    exact absurd (isBlank_of_isDigit (Bool.not_eq_false _ ▸ h)) (by simp [hd])
  have heq : d ≠ '=' := by
    rintro rfl
    exact absurd hd (by decide)
  unfold lexeme
  rw [takeWhile_append_cons hword, dropWhile_append_cons hword, takeWhile_append_cons hdigit,
    dropWhile_append_cons hdigit]
  split
  · rfl
  · split
    · rfl
    · -- a symbol may have a second character, which the blank is not
      cases cs with
      | nil =>
        rw [List.nil_append]
        split <;> simp_all
      | cons e es =>
        rw [List.cons_append]
        split <;> simp_all

theorem tokensFrom_ne_nil (file : String) (offset : Nat) (cs : List Char) :
    tokensFrom file offset cs ≠ [] := by
  obtain ⟨ts, hts, -⟩ := tokensFrom_eq_append file offset cs
  simp [hts]

/-- A lexeme and the text behind it are as long as the text that was cut. -/
theorem Lexeme.byteLength_rest (c : Char) (cs : List Char) :
    byteLength (lexeme c cs).text + byteLength (lexeme c cs).rest = byteLength (c :: cs) := by
  rw [← byteLength_append, append_rest]

/-- **The tokens of two texts with a blank between them** are those of the one text before its end and
then those of the other one. -/
theorem tokensFrom_append_blank {d : Char} (hd : isBlank d = true) (file : String) (offset : Nat)
    (cs ds : List Char) :
    tokensFrom file offset (cs ++ d :: ds) = (tokensFrom file offset cs).dropLast ++
      tokensFrom file (offset + byteLength cs + d.utf8Size) ds := by
  fun_induction tokensFrom file offset cs with
  | case1 offset => simp [tokensFrom_blank hd]
  | case2 offset c cs hblank ih =>
    rw [List.cons_append, tokensFrom_blank hblank, ih, byteLength_cons, Nat.add_assoc offset]
  | case3 offset c cs hblank ih =>
    rw [List.cons_append, tokensFrom_lexeme (Bool.eq_false_iff.2 hblank), lexeme_append_blank hd, ih,
      List.dropLast_cons_of_ne_nil (tokensFrom_ne_nil _ _ _), List.cons_append,
      Nat.add_assoc offset, Lexeme.byteLength_rest]

/-! ### Further back in a source -/

/-- A position a number of bytes **further back**. -/
def Position.moved (k : Nat) (p : Position) : Position :=
  ⟨p.offset + UInt32.ofNat k, p.file⟩

/-- A token **moved** by a number of bytes. -/
def Token.moved (k : Nat) (t : Token) : Token :=
  { t with span := ⟨t.span.start.moved k, t.span.stop.moved k⟩ }

theorem Position.at_add (file : String) (offset k : Nat) :
    Position.at file (offset + k) = (Position.at file offset).moved k := by
  rw [Position.at, UInt32.ofNat_add]
  rfl

theorem Span.ofLength_add (file : String) (offset k length : Nat) :
    Span.ofLength file (offset + k) length =
      ⟨(Span.ofLength file offset length).start.moved k,
        (Span.ofLength file offset length).stop.moved k⟩ := by
  rw [Span.ofLength, Nat.add_right_comm, Position.at_add, Position.at_add]
  rfl

/-- **What stands further back in a source** is cut into the same tokens. -/
theorem tokensFrom_add (file : String) (offset k : Nat) (cs : List Char) :
    tokensFrom file (offset + k) cs = (tokensFrom file offset cs).map (Token.moved k) := by
  fun_induction tokensFrom file offset cs with
  | case1 offset => simp [Token.endOf, Token.moved, Span.ofLength_add]
  | case2 offset c cs hblank ih => rw [tokensFrom_blank hblank, Nat.add_right_comm, ih]
  | case3 offset c cs hblank ih =>
    rw [tokensFrom_lexeme (Bool.eq_false_iff.2 hblank), Nat.add_right_comm, ih, List.map_cons]
    simp [Token.ofText, Token.moved, Span.ofLength_add]

/-- **The tokens of two lines**: those of the first one before its end, and behind them those of the
second one, moved by the length of the first one and the line break. -/
theorem tokenize_line (file first second : String) :
    tokenize (first ++ "\n" ++ second) file = (tokenize first file).dropLast ++
      (tokenize second file).map (Token.moved (byteLength first.toList + 1)) := by
  have hsource : (first ++ "\n" ++ second).toList = first.toList ++ '\n' :: second.toList := by
    simp [String.toList_append]
  rw [tokenize, hsource, tokensFrom_append_blank (by decide), ← tokenize, Nat.zero_add]
  have hsecond := tokensFrom_add file 0 (byteLength first.toList + 1) second.toList
  rw [Nat.zero_add] at hsecond
  exact congrArg _ hsecond

/-- A token that has been moved begins at most that many bytes further back. -/
theorem Token.offset_moved_le (k : Nat) (t : Token) :
    (t.moved k).span.start.offset.toNat ≤ k + t.span.start.offset.toNat := by
  have hsum : (t.moved k).span.start.offset = t.span.start.offset + UInt32.ofNat k := rfl
  rw [hsum, UInt32.toNat_add, UInt32.toNat_ofNat']
  calc (t.span.start.offset.toNat + k % 2 ^ 32) % 2 ^ 32
    _ ≤ t.span.start.offset.toNat + k % 2 ^ 32 := Nat.mod_le _ _
    _ ≤ t.span.start.offset.toNat + k := Nat.add_le_add_left (Nat.mod_le _ _) _
    _ = k + t.span.start.offset.toNat := Nat.add_comm _ _

/-- The tokens of a text **begin inside it**. -/
theorem offset_le_of_mem_tokensFrom {file : String} {offset : Nat} {cs : List Char} {t : Token}
    (h : t ∈ tokensFrom file offset cs) :
    t.span.start.offset.toNat ≤ offset + byteLength cs := by
  have hat (n : Nat) : (UInt32.ofNat n).toNat ≤ n := by
    rw [UInt32.toNat_ofNat']
    exact Nat.mod_le _ _
  fun_induction tokensFrom file offset cs with
  | case1 offset =>
    rw [List.mem_singleton.1 h]
    exact hat offset
  | case2 offset c cs hblank ih =>
    rw [byteLength_cons, ← Nat.add_assoc]
    exact ih h
  | case3 offset c cs hblank ih =>
    rcases List.mem_cons.1 h with rfl | h
    · exact Nat.le_trans (hat offset) (Nat.le_add_right _ _)
    · rw [← Lexeme.append_rest c cs, byteLength_append, ← Nat.add_assoc]
      exact ih h

end MonkeySyntax
