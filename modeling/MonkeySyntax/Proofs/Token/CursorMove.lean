import MonkeySyntax.Proofs.Token.CursorRun
import MonkeySyntax.Proofs.Token.Tiling

/-! # Movements of a cursor

A cursor may be moved by reading and by hand, in any order. What it reads next depends on its place
alone: between two characters it is the first token of the text from there on.

* **`IsBoundary cs offset`** — the offset lies between two characters of the text or at one of its ends;
  `textAt?_eq_some_iff` and `textAt?_eq_none_iff` say that the text from there on exists exactly then.
* **`Cursor.ReadsLocally c`** — what is read at a place; `Cursor.readsLocally` says it of every cursor
  over a source whose offsets fit.
* `Cursor.Move`, `Cursor.moves?` — the movements, and where some of them lead.
* **`Cursor.Ahead token c`** — the tokens that are left; `Ahead.moves?` says that they are read one by
  one, by induction on the movements. -/

namespace MonkeySyntax

/-! ### Between two characters -/

/-- **The offset lies between two characters** of the text, or at its beginning or end. -/
def IsBoundary (cs : List Char) (offset : Nat) : Prop :=
  ∃ front rest, cs = front ++ rest ∧ byteLength front = offset

/-- **There is a text from the offset on** exactly if it is what stands behind so many bytes. -/
theorem textAt?_eq_some_iff {cs rest : List Char} {offset : Nat} :
    textAt? cs offset = some rest ↔ ∃ front, cs = front ++ rest ∧ byteLength front = offset := by
  constructor
  · intro h
    fun_induction textAt? cs offset with
    | case1 cs => exact ⟨[], Option.some.inj h, rfl⟩
    | case2 => exact absurd h (by simp)
    | case3 => exact absurd h (by simp)
    | case4 c cs n hsize ih =>
      obtain ⟨front, rfl, hlength⟩ := ih h
      refine ⟨c :: front, rfl, ?_⟩
      rw [byteLength_cons, hlength]
      omega
  · rintro ⟨front, rfl, rfl⟩
    exact textAt?_append front rest

/-- There is none exactly if the offset lies inside a character or beyond the end. -/
theorem textAt?_eq_none_iff {cs : List Char} {offset : Nat} :
    textAt? cs offset = none ↔ ¬ IsBoundary cs offset := by
  rw [Option.eq_none_iff_forall_ne_some, IsBoundary]
  constructor
  · rintro h ⟨front, rest, hcs, hlength⟩
    exact h rest (textAt?_eq_some_iff.2 ⟨front, hcs, hlength⟩)
  · rintro h rest hrest
    obtain ⟨front, hcs, hlength⟩ := textAt?_eq_some_iff.1 hrest
    exact h ⟨front, rest, hcs, hlength⟩

/-- The first token stops at the offset behind it. -/
theorem stop_firstToken {file : String} {offset : Nat} {cs : List Char}
    (hfits : offset + byteLength cs < offsetBound) :
    (firstToken file offset cs).1.stop = (firstToken file offset cs).2 := by
  induction cs generalizing offset with
  | nil => exact start_of_fits hfits file 0
  | cons c cs ih =>
    rw [firstToken]
    split
    · rw [byteLength_cons, ← Nat.add_assoc] at hfits
      exact ih hfits
    · have hlength := Lexeme.byteLength_rest c cs
      exact stop_ofText (by omega) file _

/-- **The first token of a text further back** is that of the text by itself, moved. -/
theorem exists_tokenFrom_zero_eq (file : String) (offset : Nat) (cs : List Char) :
    ∃ t ts, tokenize (String.ofList cs) file = t :: ts ∧ tokenFrom file offset cs 0 = t.moved offset := by
  obtain ⟨t, ts, htokens⟩ := List.exists_cons_of_ne_nil (tokensFrom_ne_nil file 0 cs)
  refine ⟨t, ts, by rw [tokenize, String.toList_ofList, htokens], ?_⟩
  have hmoved := tokensFrom_add file 0 offset cs
  rw [Nat.zero_add, htokens, List.map_cons] at hmoved
  rw [tokenFrom, hmoved]
  rfl

namespace Cursor

variable {c d : Cursor} {cs : List Char} {token : Nat → Token}

/-! ### One place -/

theorem atEnd_iff : c.atEnd = true ↔ c.size ≤ c.offset := by
  rw [atEnd, decide_eq_true_iff]

/-- Beyond the last character there is only the end, and the cursor stays. -/
theorem next?_of_atEnd (h : c.size ≤ c.offset) : c.next? = some (.endOf c.file c.offset, c) := by
  rw [next?, if_pos (atEnd_iff.2 h)]

/-- Before it the text from there on is read. -/
theorem next?_of_lt (h : c.offset < c.size) : c.next? = c.remainder?.map fun text =>
    ((firstToken c.file c.offset text).1, { c with offset := (firstToken c.file c.offset text).2 }) := by
  rw [next?, if_neg fun hend => absurd (atEnd_iff.1 hend) (Nat.not_le_of_lt h)]

/-- **Only inside a character nothing can be read.** -/
theorem next?_eq_none_iff :
    c.next? = none ↔ c.offset < c.size ∧ ¬ IsBoundary c.source.toList c.offset := by
  rcases Nat.lt_or_ge c.offset c.size with hlt | hge
  · rw [next?_of_lt hlt, Option.map_eq_none_iff, Cursor.remainder?, textAt?_eq_none_iff]
    exact (and_iff_right hlt).symm
  · rw [next?_of_atEnd hge]
    simp [Nat.not_lt_of_le hge]

/-- **What a cursor reads depends on its place alone.** -/
structure ReadsLocally (c : Cursor) : Prop where
  /-- Only inside a character nothing can be read. -/
  none_iff : c.next? = none ↔ c.offset < c.size ∧ ¬ IsBoundary c.source.toList c.offset
  /-- At the end and beyond it the end is read where the cursor stands, and the cursor stays. -/
  atEnd : c.size ≤ c.offset → c.next? = some (.endOf c.file c.offset, c)
  /-- Before the end the first token of the text from there on is read, as far back as the cursor
  stands, and the cursor stops where the token does, between two characters. -/
  inside : ∀ front rest, c.source.toList = front ++ rest → byteLength front = c.offset → rest ≠ [] →
    ∃ t ts, tokenize (String.ofList rest) c.file = t :: ts ∧
      c.next? = some (t.moved c.offset, { c with offset := (t.moved c.offset).stop }) ∧
      IsBoundary c.source.toList (t.moved c.offset).stop

/-- **Every cursor reads locally** over a source whose offsets fit. -/
theorem readsLocally (hfits : c.size < offsetBound) : c.ReadsLocally where
  none_iff := next?_eq_none_iff
  atEnd := next?_of_atEnd
  inside front rest hsource hlength hrest := by
    have hsize : c.size = c.offset + byteLength rest := by
      rw [size, hsource, byteLength_append, hlength]
    have hlt : c.offset < c.size := hsize ▸ Nat.lt_add_of_pos_right (byteLength_pos hrest)
    have hremainder : c.remainder? = some rest := textAt?_eq_some_iff.2 ⟨front, hsource, hlength⟩
    obtain ⟨piece, behind, rfl, hfirst, -⟩ := exists_firstToken_eq c.file c.offset rest
    obtain ⟨t, ts, htokens, ht⟩ := exists_tokenFrom_zero_eq c.file c.offset (piece ++ behind)
    have hfits' : c.offset + byteLength (piece ++ behind) < offsetBound := hsize ▸ hfits
    have hstop := @stop_firstToken c.file _ _ hfits'
    rw [hfirst, ht] at hstop
    refine ⟨t, ts, htokens, ?_, front ++ piece, behind, ?_, ?_⟩
    · rw [next?_of_lt hlt, hremainder, Option.map_some, hfirst, ht, hstop]
    · rw [hsource, List.append_assoc]
    · rw [byteLength_append, hlength, hstop]

/-! ### Movements -/

/-- **A movement of a cursor.** -/
inductive Move where
  /-- A token is read. -/
  | token
  /-- An item is read, which is a token or the end. -/
  | item
  /-- The cursor is moved on by hand. -/
  | skip (bytes : Nat)
  deriving DecidableEq, Repr

/-- The movement reads. -/
def Move.Reads (m : Move) : Prop :=
  m = .token ∨ m = .item

instance (m : Move) : Decidable m.Reads := inferInstanceAs (Decidable (_ ∨ _))

/-- The cursor behind a movement; none where nothing can be read. -/
def move? (c : Cursor) : Move → Option Cursor
  | .token => c.next?.map Prod.snd
  | .item => c.nextItem?.map Prod.snd
  | .skip bytes => some (c.skip bytes)

/-- The cursor behind some movements, one after the other. -/
def moves? (c : Cursor) : List Move → Option Cursor
  | [] => some c
  | m :: ms => (c.move? m).bind (·.moves? ms)

/-- Reading does not change the source. -/
theorem source_of_next? {t : Token} (h : c.next? = some (t, d)) :
    d.source = c.source ∧ d.file = c.file := by
  rw [next?] at h
  split at h
  · obtain ⟨-, rfl⟩ := Prod.mk.inj (Option.some.inj h)
    exact ⟨rfl, rfl⟩
  · obtain ⟨text, -, htext⟩ := Option.map_eq_some_iff.1 h
    obtain ⟨-, rfl⟩ := Prod.mk.inj htext
    exact ⟨rfl, rfl⟩

/-- An item moves the cursor as its token does. -/
theorem move?_of_reads {m : Move} (h : m.Reads) : c.move? m = c.next?.map Prod.snd := by
  rcases h with rfl | rfl
  · rfl
  · rw [move?, nextItem?, Option.map_map]
    rfl

/-- No movement changes the source. -/
theorem source_of_move? {m : Move} (h : c.move? m = some d) : d.source = c.source ∧ d.file = c.file := by
  cases m with
  | skip bytes =>
    obtain rfl := Option.some.inj h
    exact ⟨rfl, rfl⟩
  | _ =>
    rw [move?_of_reads (by decide)] at h
    obtain ⟨⟨t, e⟩, hnext, rfl⟩ := Option.map_eq_some_iff.1 h
    exact source_of_next? hnext

/-- **No movements change the source**, by induction on them. -/
theorem source_of_moves? {ms : List Move} (h : c.moves? ms = some d) :
    d.source = c.source ∧ d.file = c.file := by
  induction ms generalizing c with
  | nil =>
    obtain rfl := Option.some.inj h
    exact ⟨rfl, rfl⟩
  | cons m ms ih =>
    obtain ⟨e, hmove, hrest⟩ := Option.bind_eq_some_iff.1 h
    obtain ⟨hsource, hfile⟩ := source_of_move? hmove
    obtain ⟨hsource', hfile'⟩ := ih hrest
    exact ⟨hsource'.trans hsource, hfile'.trans hfile⟩

/-! ### Reading on -/

/-- **These tokens are left** under the cursor, which stands between two characters. -/
def Ahead (token : Nat → Token) (c : Cursor) : Prop :=
  ∃ cs, c.Before cs ∧ tokenFrom c.file c.offset cs = token

/-- At first all tokens of the source are left. -/
theorem ahead_ofSource (source file : String) :
    (ofSource source file).Ahead (sourceToken file source) :=
  ⟨source.toList, before_ofSource source file, (sourceToken_eq file source).symm⟩

/-- **One of them is read**, and the others are left. -/
theorem Ahead.next? (h : c.Ahead token) :
    ∃ d, c.next? = some (token 0, d) ∧ d.Ahead fun n => token (n + 1) := by
  obtain ⟨cs, hbefore, rfl⟩ := h
  obtain ⟨d, rest, hnext, hd, hothers⟩ := hbefore.next?
  exact ⟨d, hnext, rest, hd, funext fun n => (hothers n).symm⟩

/-- **As many tokens are read as there are movements**, by induction on them. -/
theorem Ahead.moves? {ms : List Move} (h : c.Ahead token) (hreads : ∀ m ∈ ms, m.Reads) :
    ∃ d, c.moves? ms = some d ∧ d.Ahead fun n => token (ms.length + n) := by
  induction ms generalizing c token with
  | nil => exact ⟨c, rfl, by simpa using h⟩
  | cons m ms ih =>
    obtain ⟨hm, hms⟩ := List.forall_mem_cons.1 hreads
    obtain ⟨d, hnext, hd⟩ := h.next?
    obtain ⟨e, hmoves, he⟩ := ih hd hms
    refine ⟨e, ?_, ?_⟩
    · rw [Cursor.moves?, move?_of_reads hm, hnext]
      exact hmoves
    · have hnumber (n : Nat) : ms.length + n + 1 = (m :: ms).length + n := by
        rw [List.length_cons]
        omega
      simpa only [hnumber] using he

/-- All tokens that are left may be read at once. -/
theorem Before.drain? (h : c.Before cs) : c.drain? = some (tokensFrom c.file c.offset cs) := by
  rw [Cursor.drain?]
  split
  · next hend =>
    obtain rfl := h.eq_nil hend
    rw [tokensFrom_nil]
  · rw [h.remainder?, Option.map_some]

end Cursor

end MonkeySyntax
