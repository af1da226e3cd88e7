import MonkeySyntax.Token.Lexeme

/-! # Cursors

A cursor reads one source token by token, and may also be moved by hand. Movement by hand is not
checked: it may leave the cursor beyond the end, where every token is `eof`, or inside a character,
where nothing can be read.

* `firstToken`: the first token of a text and the offset behind it.
* `Cursor`: a source and a byte offset in it.
* `Cursor.next?`, `Cursor.drain?`: one token, and all that are left; `Cursor.nextItem?`: one token
  that is not the end.

`Cursor.drain?_ofSource` says that draining a cursor at the beginning gives the tokens of its source,
and `head?_tokensFrom` that reading one token gives the first of them.
-/

namespace MonkeySyntax

/-- The **first token** of a text that begins at the given byte offset, and the offset behind it.
Blanks before the token are passed over. -/
def firstToken (file : String) (offset : Nat) : List Char → Token × Nat
  | [] => (.endOf file offset, offset)
  | c :: cs =>
    if isBlank c then
      firstToken file (offset + c.utf8Size) cs
    else
      (.ofText file offset (lexeme c cs).kind (lexeme c cs).text,
        offset + byteLength (lexeme c cs).text)

/-- The first token of a text heads the list of its tokens. -/
theorem head?_tokensFrom (file : String) (offset : Nat) (cs : List Char) :
    (tokensFrom file offset cs).head? = some (firstToken file offset cs).1 := by
  induction cs generalizing offset with
  | nil => simp [firstToken]
  | cons c cs ih =>
    cases h : isBlank c with
    | true => simp [tokensFrom_blank h, firstToken, h, ih]
    | false => simp [tokensFrom_lexeme h, firstToken, h]

/-- A **cursor**: a named source and a byte offset in it. -/
structure Cursor where
  /-- The text that is read. -/
  source : String
  /-- The name of the source. -/
  file : String
  /-- The byte offset of the text that is read next. -/
  offset : Nat
  deriving DecidableEq, Repr

namespace Cursor

/-- A cursor at the start of a source. -/
def ofSource (source file : String) : Cursor :=
  ⟨source, file, 0⟩

/-- The length of the source in bytes. -/
def size (c : Cursor) : Nat :=
  byteLength c.source.toList

/-- Whether nothing is left to read. -/
def atEnd (c : Cursor) : Bool :=
  c.size ≤ c.offset

/-- The cursor moved on by a number of bytes, wherever that leads. -/
def skip (c : Cursor) (bytes : Nat) : Cursor :=
  { c with offset := c.offset + bytes }

/-- The position under the cursor. -/
def position (c : Cursor) : Position :=
  .at c.file c.offset

/-- The span of the next bytes, whether or not the source has as many. -/
def spanOf (c : Cursor) (bytes : Nat) : Span :=
  .ofLength c.file c.offset bytes

/-- The text under the cursor; none beyond the end or inside a character. -/
def remainder? (c : Cursor) : Option (List Char) :=
  textAt? c.source.toList c.offset

/-- The **next token** and the cursor behind it. At the end the token is `eof` and the cursor stays;
inside a character there is no token. -/
def next? (c : Cursor) : Option (Token × Cursor) :=
  if c.atEnd then
    some (.endOf c.file c.offset, c)
  else
    c.remainder?.map fun text =>
      let (token, offset) := firstToken c.file c.offset text
      (token, { c with offset })

/-- The **next item** and the cursor behind it: the next token, or no item at the end. There, too, the
cursor has passed any blanks; inside a character it cannot move. -/
def nextItem? (c : Cursor) : Option (Option Token × Cursor) :=
  c.next?.map fun (token, c) => (if token.kind = .eof then none else some token, c)

/-- The cursor behind a number of tokens. -/
def nextTimes? (c : Cursor) : Nat → Option Cursor
  | 0 => some c
  | n + 1 => c.next?.bind fun (_, c) => c.nextTimes? n

/-- All **tokens that are left**, closed by `eof`; none inside a character. -/
def drain? (c : Cursor) : Option (List Token) :=
  if c.atEnd then
    some [.endOf c.file c.offset]
  else
    c.remainder?.map (tokensFrom c.file c.offset)

/-- The cursor at the end of the source; one that is already there or beyond stays. -/
def toEnd (c : Cursor) : Cursor :=
  { c with offset := max c.offset c.size }

@[simp] theorem remainder?_ofSource (source file : String) :
    (ofSource source file).remainder? = some source.toList := by
  simp [remainder?, ofSource]

/-- Draining a source from its start gives its tokens. -/
theorem drain?_ofSource (source file : String) :
    (ofSource source file).drain? = some (tokenize source file) := by
  unfold drain?
  split
  · next h =>
    have hnil : source.toList = [] := by
      cases hs : source.toList with
      | nil => rfl
      | cons c cs =>
        have hpos := c.utf8Size_pos
        simp [atEnd, size, ofSource, hs] at h
        omega
    simp [tokenize, hnil, ofSource]
  · simp [tokenize, ofSource, remainder?]

/-- Where a token can be read, it is the first of those that are left. -/
theorem head?_drain? {c d : Cursor} {t : Token} (h : c.next? = some (t, d)) :
    c.drain?.bind List.head? = some t := by
  unfold next? at h
  unfold drain?
  split at h
  · next hend =>
    simp only [Option.some.injEq, Prod.mk.injEq] at h
    obtain ⟨rfl, rfl⟩ := h
    simp [hend]
  · next hend =>
    cases hr : c.remainder? with
    | none => simp [hr] at h
    | some text =>
      simp only [hr, Option.map_some, Option.some.injEq, Prod.mk.injEq] at h
      simp [hend, head?_tokensFrom, h.1]

end Cursor

end MonkeySyntax
