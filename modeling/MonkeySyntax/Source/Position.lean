/-! # Positions in a named source

A place in a source is a byte offset together with the name of the source, so that a diagnostic can
say where it belongs without the text being at hand.

* `byteLength`: the length of a text in bytes of its UTF-8 form, the unit of every offset here.
* `textAt?`: the text that begins at a byte offset, absent where the offset is beyond the end or
  inside a character.
* `Position`, `Span`: an offset in a named source, and the stretch between two of them.
-/

namespace MonkeySyntax

/-- The name that a source has when none is given: text typed at the prompt. -/
def defaultFileName : String := "shell"

/-- The length of a text in bytes of its UTF-8 form. -/
def byteLength : List Char → Nat
  | [] => 0
  | c :: cs => c.utf8Size + byteLength cs

@[simp] theorem byteLength_nil : byteLength [] = 0 := rfl

@[simp] theorem byteLength_cons (c : Char) (cs : List Char) :
    byteLength (c :: cs) = c.utf8Size + byteLength cs := rfl

@[simp] theorem byteLength_append (cs ds : List Char) :
    byteLength (cs ++ ds) = byteLength cs + byteLength ds := by
  induction cs with
  | nil => simp
  | cons c cs ih => simp [ih, Nat.add_assoc]

/-- The part of a text that begins at the given byte offset. There is none when the offset lies
beyond the end or inside a character. -/
def textAt? : List Char → Nat → Option (List Char)
  | cs, 0 => some cs
  | [], _ + 1 => none
  | c :: cs, n + 1 => if n + 1 < c.utf8Size then none else textAt? cs (n + 1 - c.utf8Size)

@[simp] theorem textAt?_zero (cs : List Char) : textAt? cs 0 = some cs := by
  cases cs <;> rfl

/-- The text behind a first part begins where that part ends. -/
@[simp] theorem textAt?_append (cs ds : List Char) :
    textAt? (cs ++ ds) (byteLength cs) = some ds := by
  induction cs with
  | nil => simp
  | cons c cs ih =>
    obtain ⟨n, hn⟩ : ∃ n, c.utf8Size + byteLength cs = n + 1 :=
      ⟨c.utf8Size + byteLength cs - 1, by have := c.utf8Size_pos; omega⟩
    have hlt : ¬ n + 1 < c.utf8Size := by omega
    have hsub : n + 1 - c.utf8Size = byteLength cs := by omega
    simp [textAt?, hn, hlt, hsub, ih]

/-- A **position**: a byte offset in a named source. Offsets are kept in 32 bits, so a source of
four gigabytes or more wraps around. -/
structure Position where
  /-- The byte offset, modulo 2^32. -/
  offset : UInt32
  /-- The name of the source. -/
  file : String
  deriving DecidableEq, Repr

/-- The position of a byte offset of any size. -/
def Position.at (file : String) (offset : Nat) : Position :=
  ⟨UInt32.ofNat offset, file⟩

/-- A **span**: the stretch of a source from one position up to another. -/
structure Span where
  /-- Where the stretch begins. -/
  start : Position
  /-- Where it has ended: the position of the first byte after it. -/
  stop : Position
  deriving DecidableEq, Repr

/-- The span of the given number of bytes from an offset on. -/
def Span.ofLength (file : String) (offset length : Nat) : Span :=
  ⟨.at file offset, .at file (offset + length)⟩

end MonkeySyntax
