/-! # Kinds of token

The vocabulary of the language: two-character and one-character symbols, seven keywords, words and
numbers, and the two kinds that stand for "no more text" and "a character that starts nothing".

* `Kind`: the kinds.
* `Kind.name`: what messages call a kind; `Kind.label`: what a token listing calls it.
* `keywords`, `Kind.ofWord`: the words that are not identifiers.
* `symbols`, `Kind.ofSymbol`: the characters that are a token by themselves.
-/

namespace MonkeySyntax

/-- The **kind** of a token. -/
inductive Kind where
  /-- The end of the source. -/
  | eof
  /-- A character that starts no other token. -/
  | illegal
  /-- A word that is not a keyword. -/
  | identifier
  /-- A run of decimal digits. -/
  | integer
  /-- The sign `=`. -/
  | assign
  /-- The sign `+`. -/
  | plus
  /-- The sign `-`. -/
  | minus
  /-- The sign `*`. -/
  | star
  /-- The sign `/`. -/
  | slash
  /-- The sign `!`. -/
  | bang
  /-- The sign `<`. -/
  | less
  /-- The sign `>`. -/
  | greater
  /-- The sign `==`. -/
  | equals
  /-- The sign `!=`. -/
  | notEquals
  /-- The sign `,`. -/
  | comma
  /-- The sign `;`. -/
  | semicolon
  /-- The opening parenthesis. -/
  | openParen
  /-- The closing parenthesis. -/
  | closeParen
  /-- The opening brace. -/
  | openBrace
  /-- The closing brace. -/
  | closeBrace
  /-- The keyword `fn`. -/
  | kwFn
  /-- The keyword `let`. -/
  | kwLet
  /-- The keyword `true`. -/
  | kwTrue
  /-- The keyword `false`. -/
  | kwFalse
  /-- The keyword `if`. -/
  | kwIf
  /-- The keyword `else`. -/
  | kwElse
  /-- The keyword `return`. -/
  | kwReturn
  deriving DecidableEq, Repr

namespace Kind

/-- Every kind, in the order of the vocabulary. -/
def all : List Kind :=
  [eof, illegal, identifier, integer, assign, plus, minus, star, slash, bang, less, greater, equals,
    notEquals, comma, semicolon, openParen, closeParen, openBrace, closeBrace, kwFn, kwLet, kwTrue,
    kwFalse, kwIf, kwElse, kwReturn]

/-- No kind is missing from the list. -/
theorem mem_all (k : Kind) : k ∈ all := by cases k <;> decide

/-- The **name** of a kind in messages: its spelling where that is one sign, else a word in
capitals. -/
def name : Kind → String
  | eof => "EOF"
  | illegal => "ILLEGAL"
  | identifier => "IDENT"
  | integer => "INT"
  | assign => "="
  | plus => "+"
  | minus => "-"
  | star => "*"
  | slash => "/"
  | bang => "!"
  | less => "<"
  | greater => ">"
  | equals => "=="
  | notEquals => "!="
  | comma => ","
  | semicolon => ";"
  | openParen => "("
  | closeParen => ")"
  | openBrace => "\x7b"
  | closeBrace => "\x7d"
  | kwFn => "FUNCTION"
  | kwLet => "LET"
  | kwTrue => "TRUE"
  | kwFalse => "FALSE"
  | kwIf => "IF"
  | kwElse => "ELSE"
  | kwReturn => "RETURN"

/-- The **label** of a kind in a token listing: always a word. -/
def label : Kind → String
  | eof => "EOF"
  | illegal => "Illegal"
  | identifier => "Identifier"
  | integer => "Int"
  | assign => "Assignment"
  | plus => "Plus"
  | minus => "Minus"
  | star => "Star"
  | slash => "Slash"
  | bang => "Bang"
  | less => "Less"
  | greater => "Greater"
  | equals => "Equals"
  | notEquals => "NotEquals"
  | comma => "Comma"
  | semicolon => "Semicolon"
  | openParen => "OpenParen"
  | closeParen => "CloseParen"
  | openBrace => "OpenCurly"
  | closeBrace => "CloseCurly"
  | kwFn => "Function"
  | kwLet => "Let"
  | kwTrue => "True"
  | kwFalse => "False"
  | kwIf => "If"
  | kwElse => "Else"
  | kwReturn => "Return"

/-- The kind that has the given name. -/
def ofName? (name : String) : Option Kind :=
  all.find? (·.name == name)

/-- Reading a name back gives the kind that has it, so no two kinds share a name. -/
theorem ofName?_name (k : Kind) : ofName? k.name = some k := by cases k <;> decide

end Kind

/-- The **keywords** and their kinds. -/
def keywords : List (String × Kind) :=
  [("fn", .kwFn), ("let", .kwLet), ("true", .kwTrue), ("false", .kwFalse), ("if", .kwIf),
    ("else", .kwElse), ("return", .kwReturn)]

/-- The kind of a word: a keyword that is spelt exactly so, else an identifier. -/
def Kind.ofWord (word : String) : Kind :=
  (keywords.lookup word).getD .identifier

/-- The **symbols** of one character and their kinds. -/
def symbols : List (Char × Kind) :=
  [('=', .assign), ('+', .plus), ('-', .minus), ('*', .star), ('/', .slash), ('!', .bang),
    ('<', .less), ('>', .greater), (',', .comma), (';', .semicolon), ('(', .openParen),
    (')', .closeParen), ('{', .openBrace), ('}', .closeBrace)]

/-- The kind of a character that stands by itself: a symbol, else an illegal character. -/
def Kind.ofSymbol (c : Char) : Kind :=
  (symbols.lookup c).getD .illegal

/-- The name of a one-character symbol is the symbol. -/
theorem Kind.name_of_mem_symbols : ∀ p ∈ symbols, p.2.name = String.singleton p.1 := by decide

end MonkeySyntax
