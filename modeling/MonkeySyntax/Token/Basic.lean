import MonkeySyntax.Source.Position
import MonkeySyntax.Token.Kind

/-! # Tokens

A token is a stretch of the source with the kind that its text has.

* `Token`: kind, text and span.
* `Token.alike`: agreement in kind and text, wherever the two tokens stand.
* `Token.display`: a token as it is shown to a reader.
-/

namespace MonkeySyntax

/-- A **token**: its kind, its exact text and where it stands. -/
structure Token where
  /-- What the token is. -/
  kind : Kind
  /-- The text of the token, empty at the end of the source. -/
  text : String
  /-- The place of the text in its source. -/
  span : Span
  deriving DecidableEq, Repr

namespace Token

/-- The token that marks the end of a source, at the given byte offset. -/
def endOf (file : String) (offset : Nat) : Token :=
  ⟨.eof, "", .ofLength file offset 0⟩

/-- The token of a kind whose text begins at the given byte offset. -/
def ofText (file : String) (offset : Nat) (kind : Kind) (text : List Char) : Token :=
  ⟨kind, String.ofList text, .ofLength file offset (byteLength text)⟩

@[simp] theorem kind_endOf (file : String) (offset : Nat) : (endOf file offset).kind = .eof := rfl

@[simp] theorem kind_ofText (file : String) (offset : Nat) (kind : Kind) (text : List Char) :
    (ofText file offset kind text).kind = kind := rfl

/-- Two tokens are **alike** when kind and text agree; their places do not matter. -/
def alike (a b : Token) : Bool :=
  a.kind == b.kind && a.text == b.text

/-- Alike tokens are those with the same kind and the same text. -/
theorem alike_iff {a b : Token} : a.alike b = true ↔ a.kind = b.kind ∧ a.text = b.text := by
  simp [alike]

/-- A token is alike to itself. -/
@[simp] theorem alike_self (a : Token) : a.alike a = true := alike_iff.2 ⟨rfl, rfl⟩

/-- A token as it is shown: the name of its kind, with the text where the kind leaves it open. -/
def display (t : Token) : String :=
  match t.kind with
  | .identifier | .integer | .illegal => t.kind.name ++ " (" ++ t.text ++ ")"
  | _ => t.kind.name

end Token

end MonkeySyntax
