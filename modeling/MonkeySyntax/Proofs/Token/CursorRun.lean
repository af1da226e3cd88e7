import MonkeySyntax.Proofs.Token.Joining
import MonkeySyntax.Token.Cursor

/-! # Runs of a cursor

A cursor that reads its source from the beginning always stands between two characters, so it can read
on for ever: first the tokens of the source, then the end of it again and again.

* **`Cursor.Before c cs`** — the text is what is left under the cursor.
* **`sourceToken`** — the token of a source with a given number, behind the last one its end for ever;
  `tokenFrom` — the same for any text.
* `exists_firstToken_eq` — the first token of a text takes a piece off the text, and leaves the others.
* **`Cursor.Before.next?`** — one token is read, and the cursor stands before what is left of the text.
* **`Cursor.Before.nextTimes?`** — any number of tokens, by induction on the number; and so
  `nextTimes?_ofSource`, those of a source. -/

namespace MonkeySyntax

/-! ### One token of many -/

/-- **The token of a text with the given number**; behind the last one there is the end of the text. -/
def tokenFrom (file : String) (offset : Nat) (cs : List Char) (n : Nat) : Token :=
  (tokensFrom file offset cs)[n]?.getD (.endOf file (offset + byteLength cs))

/-- A blank in front does not change the numbers. -/
theorem tokenFrom_blank {c : Char} (h : isBlank c = true) (file : String) (offset : Nat)
    (cs : List Char) :
    tokenFrom file offset (c :: cs) = tokenFrom file (offset + c.utf8Size) cs := by
  funext n
  rw [tokenFrom, tokenFrom, tokensFrom_blank h, byteLength_cons, Nat.add_assoc]

/-- Where no text is left there is only its end. -/
theorem tokenFrom_nil (file : String) (offset n : Nat) :
    tokenFrom file offset [] n = .endOf file offset := by
  rw [tokenFrom, tokensFrom_nil]
  cases n <;> rfl

/-- **The first token takes a piece off the text** and leaves the others to the rest of it. -/
theorem exists_firstToken_eq (file : String) (offset : Nat) (cs : List Char) :
    ∃ piece rest, cs = piece ++ rest ∧
      firstToken file offset cs = (tokenFrom file offset cs 0, offset + byteLength piece) ∧
      ∀ n, tokenFrom file offset cs (n + 1) = tokenFrom file (offset + byteLength piece) rest n := by
  induction cs generalizing offset with
  | nil =>
    -- the end is read without a step, and there it is read again
    refine ⟨[], [], rfl, ?_, fun n => ?_⟩
    · rw [tokenFrom_nil, firstToken, byteLength_nil, Nat.add_zero]
    · rw [tokenFrom_nil, tokenFrom_nil, byteLength_nil, Nat.add_zero]
  | cons c cs ih =>
    cases hblank : isBlank c with
    | true =>
      obtain ⟨piece, rest, hcs, hfirst, hothers⟩ := ih (offset + c.utf8Size)
      rw [Nat.add_assoc] at hfirst hothers
      refine ⟨c :: piece, rest, by rw [hcs, List.cons_append], ?_, ?_⟩
      · rw [firstToken, if_pos hblank, hfirst, tokenFrom_blank hblank, byteLength_cons]
      · rw [tokenFrom_blank hblank, byteLength_cons]
        exact hothers
    | false =>
      have htokens := tokensFrom_lexeme hblank file offset cs
      refine ⟨(lexeme c cs).text, (lexeme c cs).rest, (Lexeme.append_rest c cs).symm, ?_, fun n => ?_⟩
      · rw [firstToken, if_neg (by rw [hblank]; decide), tokenFrom, htokens]
        rfl
      · rw [tokenFrom, tokenFrom, htokens, List.getElem?_cons_succ, Nat.add_assoc, ← byteLength_append,
          Lexeme.append_rest]

/-- **The token of a source with the given number**; behind the last one there is the end of the source
for ever. -/
def sourceToken (file source : String) (n : Nat) : Token :=
  (tokenize source file)[n]?.getD (.endOf file (byteLength source.toList))

theorem sourceToken_eq (file source : String) :
    sourceToken file source = tokenFrom file 0 source.toList := by
  funext n
  rw [sourceToken, tokenFrom, tokenize, Nat.zero_add]

/-! ### The cursor -/

namespace Cursor

variable {c : Cursor} {cs : List Char}

/-- **The cursor stands before a text**: this is what its source has from the offset on. -/
def Before (c : Cursor) (cs : List Char) : Prop :=
  ∃ front, c.source.toList = front ++ cs ∧ c.offset = byteLength front

/-- At first a cursor stands before its whole source. -/
theorem before_ofSource (source file : String) : (ofSource source file).Before source.toList :=
  ⟨[], rfl, rfl⟩

/-- The text can be read. -/
theorem Before.remainder? (h : c.Before cs) : c.remainder? = some cs := by
  obtain ⟨front, hsource, hoffset⟩ := h
  rw [Cursor.remainder?, hsource, hoffset, textAt?_append]

/-- Behind a piece of the text the cursor stands before the rest of it. -/
theorem Before.skip {piece rest : List Char} (h : c.Before (piece ++ rest)) :
    (c.skip (byteLength piece)).Before rest := by
  obtain ⟨front, hsource, hoffset⟩ := h
  refine ⟨front ++ piece, by rw [List.append_assoc]; exact hsource, ?_⟩
  rw [byteLength_append, ← hoffset]
  rfl

/-- At the end no text is left. -/
theorem Before.eq_nil (h : c.Before cs) (hend : c.atEnd = true) : cs = [] := by
  obtain ⟨front, hsource, hoffset⟩ := h
  have hle : c.size ≤ c.offset := of_decide_eq_true hend
  rw [size, hsource, byteLength_append, hoffset] at hle
  cases cs with
  | nil => rfl
  | cons d cs =>
    have hpos := d.utf8Size_pos
    rw [byteLength_cons] at hle
    omega

/-- **One token is read**, the first one of the text, and the others are left. -/
theorem Before.next? (h : c.Before cs) :
    ∃ d rest, c.next? = some (tokenFrom c.file c.offset cs 0, d) ∧ d.Before rest ∧
      ∀ n, tokenFrom c.file c.offset cs (n + 1) = tokenFrom d.file d.offset rest n := by
  cases hend : c.atEnd with
  | true =>
    obtain rfl := h.eq_nil hend
    refine ⟨c, [], ?_, h, fun n => ?_⟩
    · rw [Cursor.next?, if_pos hend, tokenFrom_nil]
    · rw [tokenFrom_nil, tokenFrom_nil]
  | false =>
    obtain ⟨piece, rest, rfl, hfirst, hothers⟩ := exists_firstToken_eq c.file c.offset cs
    refine ⟨c.skip (byteLength piece), rest, ?_, h.skip, hothers⟩
    rw [Cursor.next?, if_neg (by rw [hend]; decide), h.remainder?, Option.map_some, hfirst]
    rfl

/-- **Any number of tokens is read**, and then the one that comes next. -/
theorem Before.nextTimes? (h : c.Before cs) (n : Nat) :
    ∃ d e, c.nextTimes? n = some d ∧ d.next? = some (tokenFrom c.file c.offset cs n, e) := by
  induction n generalizing c cs with
  | zero =>
    obtain ⟨d, -, hnext, -⟩ := h.next?
    exact ⟨c, d, rfl, hnext⟩
  | succ n ih =>
    obtain ⟨d, rest, hnext, hd, hothers⟩ := h.next?
    obtain ⟨e, e', htimes, hlast⟩ := ih hd
    refine ⟨e, e', ?_, by rw [hothers, hlast]⟩
    rw [Cursor.nextTimes?, hnext]
    exact htimes

/-- **The tokens of a source are read one by one**, and then its end again and again. -/
theorem nextTimes?_ofSource (source file : String) (n : Nat) :
    ∃ c d, (ofSource source file).nextTimes? n = some c ∧ c.next? = some (sourceToken file source n, d) := by
  rw [sourceToken_eq]
  exact (before_ofSource source file).nextTimes? n

end Cursor

end MonkeySyntax
