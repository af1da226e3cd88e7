import Mathlib.Data.List.Chain
import MonkeySyntax.Proofs.Spacing
import MonkeySyntax.Proofs.Token.Tiling

/-! # Which tokens need a blank between them

Tokens may be written down one behind the other with blanks of any kind between them. What is written
is cut into the same tokens again unless two of them that touch each other would be read as one.

* **`Written`** — a token with the blanks before it; `Written.text` — what some of them look like.
* **`Kind.Merges k l`** — a token of the one kind swallows the beginning of the next one;
  `Kind.Spelt.joins_iff` tells this by the first character of that one.
* `map_content_tokensFrom_iff` — when one written token is cut off a text.
* **`tokenize_written_iff`** — when all of them are. -/

namespace MonkeySyntax

/-! ### Tokens that touch each other -/

/-- The kinds of the words. -/
def Kind.IsWord (k : Kind) : Prop :=
  k = .identifier ∨ ∃ p ∈ keywords, p.2 = k

instance (k : Kind) : Decidable k.IsWord := inferInstanceAs (Decidable (_ ∨ _))

/-- No word is a number or a sign. -/
theorem Kind.IsWord.ne {k : Kind} (h : k.IsWord) : k ≠ .integer ∧ k ≠ .assign ∧ k ≠ .equals := by
  refine ⟨?_, ?_, ?_⟩ <;> (rintro rfl; exact absurd h (by decide))

/-- **A token of the kind `k` swallows the beginning of the next one**, which is of the kind `l`: two
words, two numbers, or one of the signs `=` and `!` with `=` or `==` behind it. -/
def Kind.Merges (k l : Kind) : Prop :=
  k.IsWord ∧ l.IsWord ∨ k = .integer ∧ l = .integer ∨
    (k = .assign ∨ k = .bang) ∧ (l = .assign ∨ l = .equals)

instance (k l : Kind) : Decidable (k.Merges l) := inferInstanceAs (Decidable (_ ∨ _))

/-- What joins a token of some kind. -/
theorem Kind.joins_iff (k : Kind) (c : Char) :
    k.joins c = true ↔ k.IsWord ∧ isWordChar c = true ∨ k = .integer ∧ isDigit c = true ∨
      (k = .assign ∨ k = .bang) ∧ c = '=' := by
  cases k <;> simp [joins, IsWord, keywords]

/-- No blank joins a token. -/
theorem Kind.joins_of_isBlank (k : Kind) {c : Char} (h : isBlank c = true) : k.joins c = false := by
  rw [Bool.eq_false_iff]
  intro hjoins
  rcases (Kind.joins_iff k c).1 hjoins with ⟨-, hc⟩ | ⟨-, hc⟩ | ⟨-, rfl⟩
  · exact absurd h (by simp [isBlank_of_isWordChar hc])
  · exact absurd h (by simp [isBlank_of_isDigit hc])
  · exact absurd h (by decide)

/-- **The first character of a token tells what it would join.** -/
theorem Kind.Spelt.first_iff {l : Kind} {c : Char} {cs : List Char} (h : l.Spelt (c :: cs)) :
    (isWordChar c = true ↔ l.IsWord) ∧ (isDigit c = true ↔ l = .integer) ∧
      (c = '=' ↔ l = .assign ∨ l = .equals) := by
  have heq (P : Char → Bool) (hP : P '=' = false) (hc : P c = true) : c ≠ '=' := by
    rintro rfl
    exact absurd hc (by simp [hP])
  cases h with
  | @word c cs hall =>
    have hc := hall c List.mem_cons_self
    have hdigit : isDigit c ≠ true := fun h => absurd hc (by simp [isWordChar_of_isDigit h])
    have hword : (Kind.ofWord (String.ofList (c :: cs))).IsWord := by
      rcases Kind.ofWord_eq (String.ofList (c :: cs)) with h | h
      · exact .inl h
      · exact .inr ⟨_, h, rfl⟩
    generalize Kind.ofWord (String.ofList (c :: cs)) = l at hword
    obtain ⟨hinteger, hassign, hequals⟩ := hword.ne
    simp [hc, hdigit, hword, hinteger, hassign, hequals, heq isWordChar (by decide) hc]
  | number hall =>
    have hc := hall c List.mem_cons_self
    have hword : ¬ Kind.integer.IsWord := by decide
    simp [hc, isWordChar_of_isDigit hc, hword, heq isDigit (by decide) hc]
  | equals => decide
  | notEquals => decide
  | symbol hword hdigit =>
    rcases Kind.ofSymbol_eq c with h | h
    · have hsign : c ≠ '=' := by
        rintro rfl
        exact absurd h (by decide)
      have hillegal : ¬ Kind.illegal.IsWord := by decide
      simp [h, hword, hdigit, hsign, hillegal]
    · have hall : ∀ p ∈ symbols, ¬ p.2.IsWord ∧ p.2 ≠ .integer ∧
          (p.1 = '=' ↔ p.2 = .assign ∨ p.2 = .equals) := by decide
      obtain ⟨hnoWord, hnoNumber, hsign⟩ := hall _ h
      simp [hword, hdigit, hnoWord, hnoNumber, hsign]

/-- **Two tokens are read as one** when the first character of the second one joins the first. -/
theorem Kind.Spelt.joins_iff {k l : Kind} {c : Char} {cs : List Char} (h : l.Spelt (c :: cs)) :
    k.joins c = true ↔ k.Merges l := by
  obtain ⟨hword, hdigit, hsign⟩ := h.first_iff
  rw [Kind.joins_iff, hword, hdigit, hsign, Merges]

/-- A spelling begins with a character that is no blank. -/
theorem Kind.Spelt.exists_cons {k : Kind} {text : List Char} (h : k.Spelt text) :
    ∃ c cs, text = c :: cs ∧ isBlank c = false := by
  have hnone : ∀ c ∈ ([] : List Char).head?, k.joins c = false := by simp
  obtain ⟨c, cs, htext, hblank, -⟩ := lexeme_of_spelt h hnone
  exact ⟨c, cs, htext, hblank⟩

/-! ### What is written -/

/-- Some blanks. -/
structure Blanks where
  /-- The characters. -/
  chars : List Char
  /-- All of them are blanks. -/
  blank : ∀ c ∈ chars, isBlank c = true

/-- **A token as it is written down**, with the blanks before it. -/
structure Written where
  /-- What stands between the token and the one before it. -/
  before : Blanks
  /-- The kind of the token. -/
  kind : Kind
  /-- Its text. -/
  chars : List Char
  /-- A token of this kind may have this text. -/
  writtenAs : kind.WrittenAs chars

namespace Written

/-- What the token says. -/
def content (w : Written) : Kind × String :=
  (w.kind, String.ofList w.chars)

/-- **What some tokens look like** one behind the other, with further blanks at the end. -/
def text (after : Blanks) : List Written → List Char
  | [] => after.chars
  | w :: ws => w.before.chars ++ w.chars ++ text after ws

end Written

/-- **One written token is cut off a text** when nothing that stands behind it joins it; what is left is
cut then. -/
theorem map_content_tokensFrom_iff (file : String) (offset : Nat) (w : Written) (rest : List Char)
    (contents : List (Kind × String)) :
    (tokensFrom file offset (w.before.chars ++ w.chars ++ rest)).map Token.content =
        w.content :: contents ↔
      (∀ c ∈ rest.head?, w.kind.joins c = false) ∧
        (tokensFrom file (offset + byteLength w.before.chars + byteLength w.chars) rest).map
          Token.content = contents := by
  have hspelt : w.kind.Spelt w.chars := Kind.writtenAs_iff_spelt.1 w.writtenAs
  rw [List.append_assoc, tokensFrom_blanks w.before.blank]
  generalize offset + byteLength w.before.chars = start
  constructor
  · intro h
    obtain ⟨c, cs, hchars, hblank⟩ := hspelt.exists_cons
    rw [hchars, List.cons_append, tokensFrom_lexeme hblank, List.map_cons, List.cons.injEq] at h
    obtain ⟨hfirst, hothers⟩ := h
    -- the token that is cut off is the one that was written, so it goes on nowhere
    rw [Token.content, Written.content, Prod.mk.injEq] at hfirst
    obtain ⟨hkind, htext⟩ := hfirst
    have hlexeme : (lexeme c (cs ++ rest)).text = w.chars := String.ofList_injective htext
    have hrest : (lexeme c (cs ++ rest)).rest = rest := by
      have happend := Lexeme.append_rest c (cs ++ rest)
      rw [hlexeme, hchars, List.cons_append] at happend
      exact List.append_cancel_left (List.cons.inj happend).2
    have hjoins := Lexeme.joins_rest c (cs ++ rest)
    rw [hrest, show (lexeme c (cs ++ rest)).kind = w.kind from hkind] at hjoins
    rw [hrest, hlexeme] at hothers
    exact ⟨hjoins, hothers⟩
  · rintro ⟨hjoins, rfl⟩
    obtain ⟨c, cs, hchars, hblank, hlexeme⟩ := lexeme_of_spelt hspelt hjoins
    conv_lhs => rw [hchars, List.cons_append, tokensFrom_lexeme hblank, hlexeme]
    rfl

/-- No character at the beginning of what is written joins the token before it, unless the first token
stands there and merges with that one. -/
theorem joins_text_iff (k : Kind) (after : Blanks) (ws : List Written) :
    (∀ c ∈ (Written.text after ws).head?, k.joins c = false) ↔
      ∀ w ∈ ws.head?, w.before.chars = [] → ¬ k.Merges w.kind := by
  have hblank (blanks : Blanks) {c : Char} (hc : c ∈ blanks.chars) : k.joins c = false :=
    k.joins_of_isBlank (blanks.blank c hc)
  cases ws with
  | nil =>
    have hnone : ∀ c ∈ (Written.text after []).head?, k.joins c = false :=
      fun c hc => hblank after (List.mem_of_mem_head? hc)
    simpa using hnone
  | cons w ws =>
    rw [Written.text]
    cases hbefore : w.before.chars with
    | nil =>
      have hspelt : w.kind.Spelt w.chars := Kind.writtenAs_iff_spelt.1 w.writtenAs
      obtain ⟨c, cs, hchars, -⟩ := hspelt.exists_cons
      rw [hchars] at hspelt
      simp [hchars, hbefore, ← hspelt.joins_iff]
    | cons c cs =>
      have hjoins : k.joins c = false := hblank w.before (by simp [hbefore])
      simp [hjoins, hbefore]

/-- **Cutting undoes writing, if blanks stand where they have to.** Some tokens are written down with any
blanks before, between and behind them. What is written is cut into these tokens again, with the end of
the source behind them, if and only if no two of them that touch each other merge: two words, two
numbers, or `=` or `!` with `=` or `==` behind it. -/
theorem tokenize_written_iff (file : String) (ws : List Written) (after : Blanks) :
    (tokenize (String.ofList (Written.text after ws)) file).map Token.content =
        ws.map Written.content ++ [(.eof, "")] ↔
      ws.IsChain fun v w => w.before.chars = [] → ¬ v.kind.Merges w.kind := by
  rw [tokenize, String.toList_ofList]
  generalize 0 = offset
  induction ws generalizing offset with
  | nil =>
    have hnone := tokensFrom_blanks after.blank file offset []
    rw [List.append_nil, tokensFrom_nil] at hnone
    simp [Written.text, hnone, Token.content, Token.endOf]
  | cons w ws ih =>
    rw [Written.text, List.map_cons, List.cons_append, map_content_tokensFrom_iff, ih, joins_text_iff,
      List.isChain_cons]

end MonkeySyntax
