import MonkeySyntax.Token.Basic

/-! # Lexemes

A source is cut into lexemes from left to right, each as long as its class allows; blanks between
them carry no token.

* `isBlank`, `isWordChar`, `isDigit`: the character classes.
* `Lexeme`, `lexeme`: the first lexeme of a text that does not begin with a blank.
* `tokensFrom`, `tokenize`: all tokens of a text, closed by one `eof` token.

`Lexeme.append_rest` says that nothing is lost, and `Lexeme.length_rest` that each step shortens the
text, which is why the cutting ends.
-/

namespace MonkeySyntax

/-- The **blanks** between tokens: space, tab, line feed and carriage return. -/
def isBlank (c : Char) : Bool :=
  c == ' ' || c == '\t' || c == '\n' || c == '\r'

/-- The characters of a word: the ASCII letters and the underscore. -/
def isWordChar (c : Char) : Bool :=
  c.isAlpha || c == '_'

/-- The characters of a number: the ASCII digits. -/
def isDigit (c : Char) : Bool :=
  c.isDigit

/-- A **lexeme** at the head of a text: its kind, its own text, and the text after it. -/
structure Lexeme where
  /-- The kind that the text determines. -/
  kind : Kind
  /-- The text of the lexeme. -/
  text : List Char
  /-- What follows the lexeme. -/
  rest : List Char

/-- The **first lexeme** of the text `c :: cs`, where `c` is not a blank: the longest word or
number, a symbol of two characters before one of a single character, and any other character by
itself. -/
def lexeme (c : Char) (cs : List Char) : Lexeme :=
  if isWordChar c then
    let word := c :: cs.takeWhile isWordChar
    ⟨.ofWord (String.ofList word), word, cs.dropWhile isWordChar⟩
  else if isDigit c then
    ⟨.integer, c :: cs.takeWhile isDigit, cs.dropWhile isDigit⟩
  else
    match c, cs with
    | '=', '=' :: rest => ⟨.equals, ['=', '='], rest⟩
    | '!', '=' :: rest => ⟨.notEquals, ['!', '='], rest⟩
    | c, rest => ⟨.ofSymbol c, [c], rest⟩

/-- A lexeme and the text after it make up the text that was cut. -/
theorem Lexeme.append_rest (c : Char) (cs : List Char) :
    (lexeme c cs).text ++ (lexeme c cs).rest = c :: cs := by
  unfold lexeme
  split
  · simp
  · split
    · simp
    · split <;> simp

/-- A lexeme has at least one character. -/
theorem Lexeme.text_ne_nil (c : Char) (cs : List Char) : (lexeme c cs).text ≠ [] := by
  unfold lexeme
  split
  · simp
  · split
    · simp
    · split <;> simp

/-- The text after a lexeme is shorter than the text that was cut. -/
theorem Lexeme.length_rest (c : Char) (cs : List Char) :
    (lexeme c cs).rest.length < (c :: cs).length := by
  have h := congrArg List.length (append_rest c cs)
  have hpos := List.length_pos_iff.2 (text_ne_nil c cs)
  simp only [List.length_append] at h
  omega

/-- The **tokens** of a text that begins at the given byte offset of its source, closed by the
`eof` token. -/
def tokensFrom (file : String) (offset : Nat) : List Char → List Token
  | [] => [.endOf file offset]
  | c :: cs =>
    if isBlank c then
      tokensFrom file (offset + c.utf8Size) cs
    else
      .ofText file offset (lexeme c cs).kind (lexeme c cs).text ::
        tokensFrom file (offset + byteLength (lexeme c cs).text) (lexeme c cs).rest
  termination_by cs => cs.length
  decreasing_by
    · simp
    · exact Lexeme.length_rest c cs

@[simp] theorem tokensFrom_nil (file : String) (offset : Nat) :
    tokensFrom file offset [] = [.endOf file offset] := by
  rw [tokensFrom]

/-- A blank in front moves the tokens by its length. -/
theorem tokensFrom_blank {c : Char} (h : isBlank c = true) (file : String) (offset : Nat)
    (cs : List Char) :
    tokensFrom file offset (c :: cs) = tokensFrom file (offset + c.utf8Size) cs := by
  rw [tokensFrom, if_pos h]

/-- Any other character in front belongs to the first token. -/
theorem tokensFrom_lexeme {c : Char} (h : isBlank c = false) (file : String) (offset : Nat)
    (cs : List Char) :
    tokensFrom file offset (c :: cs) =
      .ofText file offset (lexeme c cs).kind (lexeme c cs).text ::
        tokensFrom file (offset + byteLength (lexeme c cs).text) (lexeme c cs).rest := by
  rw [tokensFrom, if_neg (by simp [h])]

/-- All **tokens of a source**, closed by the `eof` token. -/
def tokenize (source : String) (file : String) : List Token :=
  tokensFrom file 0 source.toList

end MonkeySyntax
