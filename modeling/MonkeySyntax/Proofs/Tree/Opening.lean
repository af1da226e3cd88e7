import MonkeySyntax.Proofs.Representation
import MonkeySyntax.Proofs.Token.Scanning

/-! # How canonical texts begin and end

The canonical text of a tree begins with a token that tells what the tree is, and what stands behind it
does not go on with it. Both hold of every tree whose nodes are sound, whatever is missing in it.

* `Item.Sound` — the node is valid, and its token is spelt as its kind asks for.
* **`Closes rest`**, `ClosesPart rest` — what may stand behind an expression, and behind a part of one
  that may be called.
* **`Expr.firstKind`**, `Statement.firstKind` — the kind of the first token of a text; by
  `Expr.firstKind_eq` the text determines it.
* `Begins c`, `Expr.exists_head` — the first character of a text. -/

namespace MonkeySyntax

variable {rest rest' : List Char}

/-! ### Sound nodes -/

/-- **A sound node**: it is valid, and its token is spelt as its kind asks for. -/
def Item.Sound (item : Item) : Prop :=
  item.Valid ∧ ∀ t ∈ item.token?, t.Spelt

/-- What is made of a token of a source is sound. -/
theorem Item.Of.sound {t : Token} {item : Item} (h : item.Of t) (ht : t.Spelt) : item.Sound := by
  refine ⟨h.valid ht, fun u hu => ?_⟩
  rw [h.token?_eq, Option.mem_some_iff] at hu
  exact hu ▸ ht

/-- So is a missing child. -/
theorem Item.sound_absent : Item.Sound .absent :=
  ⟨trivial, nofun⟩

/-! ### Tokens -/

/-- Tokens with one text are alike when both are spelt as their kinds ask for. -/
theorem Token.Spelt.alike {t u : Token} (ht : t.Spelt) (hu : u.Spelt) (h : t.text = u.text) :
    t.alike u = true := by
  have hkind : t.kind = u.kind := Kind.Spelt.unique ht (h ▸ hu)
  exact Token.alike_iff.2 ⟨hkind, h⟩

/-- The same with something behind them. -/
theorem Token.Spelt.alike_append {t u : Token} (ht : t.Spelt) (hu : u.Spelt)
    (hrest : ∀ c ∈ rest.head?, t.kind.joins c = false)
    (hrest' : ∀ c ∈ rest'.head?, u.kind.joins c = false)
    (h : t.text.toList ++ rest = u.text.toList ++ rest') : t.alike u = true ∧ rest = rest' := by
  obtain ⟨hkind, htext, hrest⟩ := Kind.Spelt.append_inj ht hu hrest hrest' h
  exact ⟨Token.alike_iff.2 ⟨hkind, String.toList_inj.1 htext⟩, hrest⟩

/-! ### What stands behind an expression -/

/-- **What may stand behind an expression**: a sign that closes it, or a blank and an operator. -/
inductive Closes : List Char → Prop where
  /-- A sign. -/
  | sign {c rest} (h : c = ')' ∨ c = ',' ∨ c = ';') : Closes (c :: rest)
  /-- An operator, which begins with no letter. -/
  | operator {c rest} (h : isWordChar c = false) : Closes (' ' :: c :: rest)

/-- **What may stand behind a part that may be called**: also the parenthesis of the call. -/
def ClosesPart (rest : List Char) : Prop :=
  Closes rest ∨ ∃ behind, rest = '(' :: behind

theorem Closes.ne_paren (h : Closes rest) {behind : List Char} : rest ≠ '(' :: behind := by
  rintro rfl
  cases h with
  | sign h => exact absurd h (by decide)

/-- No word and no number goes on there. -/
theorem ClosesPart.breaks (h : ClosesPart rest) : Breaks rest := by
  rcases h with h | ⟨behind, rfl⟩
  · cases h with
    | sign h => rcases h with rfl | rfl | rfl <;> exact breaks_cons (by decide)
    | operator => exact breaks_cons (by decide)
  · exact breaks_cons (by decide)

/-- No second branch begins there. -/
theorem ClosesPart.ne_else (h : ClosesPart rest) {behind : List Char} :
    rest ≠ ' ' :: 'e' :: behind := by
  rintro rfl
  rcases h with h | ⟨behind, h⟩
  · cases h with
    | sign h => exact absurd h (by decide)
    | operator h => exact absurd h (by decide)
  · exact absurd h (by simp)

/-! ### The first character -/

/-- **A character that a canonical text may begin with.** -/
def Begins (c : Char) : Prop :=
  isWordChar c = true ∨ isDigit c = true ∨ c = '('

instance (c : Char) : Decidable (Begins c) := inferInstanceAs (Decidable (_ ∨ _ ∨ _))

/-- Nothing that closes an expression begins one. -/
theorem Closes.not_begins (h : Closes rest) : ∀ c ∈ rest.head?, ¬ Begins c := by
  intro d hd
  cases h with
  | @sign c rest h =>
    obtain rfl : c = d := by simpa using hd
    rcases h with rfl | rfl | rfl <;> decide
  | operator =>
    obtain rfl : ' ' = d := by simpa using hd
    decide

/-- **The kinds that a canonical text may begin with.** -/
def Kind.opens : Kind → Bool
  | .identifier | .integer | .kwTrue | .kwFalse | .kwIf | .kwFn | .openParen | .kwLet | .kwReturn => true
  | _ => false

/-- They are words, numbers and the opening parenthesis. -/
theorem Kind.Spelt.begins {k : Kind} {text : List Char} (h : k.Spelt text) (hk : k.opens = true) :
    ∃ c cs, text = c :: cs ∧ Begins c := by
  cases h with
  | word hall => exact ⟨_, _, rfl, .inl (hall _ List.mem_cons_self)⟩
  | number hall => exact ⟨_, _, rfl, .inr (.inl (hall _ List.mem_cons_self))⟩
  | equals => exact absurd hk (by decide)
  | notEquals => exact absurd hk (by decide)
  | @symbol c =>
    have hall : ∀ p ∈ symbols, p.2.opens = true → p.1 = '(' := by decide
    rcases Kind.ofSymbol_eq c with hillegal | hmem
    · rw [hillegal] at hk
      exact absurd hk (by decide)
    · exact ⟨c, [], rfl, .inr (.inr (hall _ hmem hk))⟩

/-! ### The first token -/

/-- **The kind of the first token** of the text of an expression. -/
def Expr.firstKind : Expr → Kind
  | .identifier _ => .identifier
  | .integer _ _ => .integer
  | .boolean _ value => if value then .kwTrue else .kwFalse
  | .prefixOp .. | .infixOp .. => .openParen
  | .conditional .. => .kwIf
  | .function .. => .kwFn
  | .call _ f _ => f.firstKind

/-- The kind of the first token of the text of a statement. -/
def Statement.firstKind : Statement → Kind
  | .binding .. => .kwLet
  | .returning .. => .kwReturn
  | .expression x => x.firstKind

theorem Expr.opens_firstKind : (x : Expr) → x.firstKind.opens = true
  | .identifier _ | .integer _ _ | .boolean _ true | .boolean _ false | .prefixOp .. | .infixOp ..
  | .conditional .. | .function .. => rfl
  | .call _ f _ => opens_firstKind f

theorem Statement.opens_firstKind (s : Statement) : s.firstKind.opens = true := by
  cases s with
  | binding => rfl
  | returning => rfl
  | expression x => exact x.opens_firstKind

/-- **The text begins with a token of the kind**, which does not go on where the text may stand. -/
def FirstToken (k : Kind) (text : List Char) (behind : List Char → Prop) : Prop :=
  ∃ first others, text = first ++ others ∧ k.Spelt first ∧
    ∀ rest, behind rest → ∀ c ∈ (others ++ rest).head?, k.joins c = false

/-- The first tokens of equal texts are of one kind. -/
theorem FirstToken.eq {k l : Kind} {text text' : List Char} {behind : List Char → Prop}
    (hk : FirstToken k text behind) (hl : FirstToken l text' behind) (hrest : behind rest)
    (hrest' : behind rest') (h : text ++ rest = text' ++ rest') : k = l := by
  obtain ⟨first, others, rfl, hfirst, hjoins⟩ := hk
  obtain ⟨first', others', rfl, hfirst', hjoins'⟩ := hl
  rw [List.append_assoc, List.append_assoc] at h
  exact (hfirst.append_inj hfirst' (hjoins _ hrest) (hjoins' _ hrest') h).1

/-- The character that a text begins with. -/
theorem FirstToken.exists_head {k : Kind} {text : List Char} {behind : List Char → Prop}
    (h : FirstToken k text behind) (hk : k.opens = true) : ∃ c cs, text = c :: cs ∧ Begins c := by
  obtain ⟨first, others, rfl, hfirst, -⟩ := h
  obtain ⟨c, cs, rfl, hc⟩ := hfirst.begins hk
  exact ⟨c, cs ++ others, rfl, hc⟩

/-- A text that is one word or number. -/
theorem FirstToken.whole {t : Token} (ht : t.Spelt)
    (hjoins : ∀ c, isWordChar c = false ∧ isDigit c = false → t.kind.joins c = false) :
    FirstToken t.kind t.text.toList ClosesPart :=
  ⟨t.text.toList, [], (List.append_nil _).symm, ht, fun _ hrest c hc => hjoins c (hrest.breaks c hc)⟩

/-- A text that begins with a keyword and something that does not belong to it. -/
theorem FirstToken.keyword {k : Kind} {word : String} (h : (word, k) ∈ keywords) {c : Char}
    (hc : isWordChar c = false) (cs : List Char) (behind : List Char → Prop) :
    FirstToken k (word.toList ++ c :: cs) behind := by
  refine ⟨word.toList, c :: cs, rfl, spelt_of_mem_keywords h, fun rest _ d hd => ?_⟩
  obtain rfl : c = d := by simpa using hd
  rw [← Kind.ofWord_of_mem h, Kind.joins_ofWord, hc]

/-- A text that begins with a parenthesis. -/
theorem FirstToken.paren (cs : List Char) (behind : List Char → Prop) :
    FirstToken .openParen ('(' :: cs) behind :=
  ⟨['('], cs, rfl, spelt_of_mem_symbols (by decide), fun _ _ _ _ => rfl⟩

/-- **The first token of an expression.** -/
theorem Expr.firstToken : (x : Expr) → (∀ item ∈ x.items, item.Sound) →
    FirstToken x.firstKind x.display.toList ClosesPart
  | .identifier i, h => by
    have hi := h _ (List.mem_singleton.2 rfl)
    have hvalid : i.WellFormed := hi.1
    have hfirst := FirstToken.whole (hi.2 i.token rfl) fun c hc => by
      rw [hvalid.kind_eq]
      exact hc.1
    rwa [hvalid.kind_eq, hvalid.text_eq] at hfirst
  | .integer t value, h => by
    have hi := h _ (List.mem_singleton.2 rfl)
    have hkind : t.kind = .integer := hi.1.1
    have hfirst := FirstToken.whole (hi.2 t rfl) fun c hc => by
      rw [hkind]
      exact hc.2
    rwa [hkind] at hfirst
  | .boolean t value, h => by
    have hi := h _ (List.mem_singleton.2 rfl)
    obtain ⟨hkind, hvalue⟩ : (t.kind = .kwTrue ∨ t.kind = .kwFalse) ∧ (value = true ↔ t.kind = .kwTrue) :=
      hi.1
    have hfirst : t.kind = (Expr.boolean t value).firstKind := by
      cases value with
      | true => exact hvalue.1 rfl
      | false => exact hkind.resolve_left fun h => absurd (hvalue.2 h) (by decide)
    rw [← hfirst]
    refine FirstToken.whole (hi.2 t rfl) fun c hc => ?_
    rcases hkind with hkind | hkind <;> (rw [hkind]; exact hc.1)
  | .prefixOp t o x, _ => by
    have htext : (Expr.prefixOp t o x).display.toList =
        '(' :: (o.toList ++ ((Expr.display? x).toList ++ [')'])) := by simp [display]
    rw [htext]
    exact .paren _ _
  | .infixOp t o l x, _ => by
    have htext : (Expr.infixOp t o l x).display.toList =
        '(' :: (l.display.toList ++ ' ' :: (o.toList ++ ' ' :: ((Expr.display? x).toList ++ [')']))) := by
      simp [display]
    rw [htext]
    exact .paren _ _
  | .conditional t c a e, h => by
    have ht : t.Is .kwIf "if" := (h (.choice t) List.mem_cons_self).1
    have htext : (Expr.conditional t c a e).display.toList = "if".toList ++ ' ' :: '(' ::
        ((Expr.display? c).toList ++ ')' :: ' ' :: (a.braced.toList ++ (Block.otherwise? e).toList)) := by
      simp [display, ht.2]
    rw [htext]
    exact .keyword (k := .kwIf) (by decide) (by decide) _ _
  | .function t ps b, h => by
    have ht : t.Is .kwFn "fn" := (h (.function t) List.mem_cons_self).1
    have htext : (Expr.function t ps b).display.toList = "fn".toList ++ '(' ::
        ((", ".intercalate (ps.map (·.name))).toList ++ ')' :: ' ' :: b.braced.toList) := by
      simp [display, ht.2]
    rw [htext]
    exact .keyword (k := .kwFn) (by decide) (by decide) _ _
  | .call t f xs, h => by
    obtain ⟨first, others, htext, hfirst, hjoins⟩ :=
      firstToken f fun item hitem => h item (List.mem_append_left _ hitem)
    -- the first token is that of the callee, which may be called
    refine ⟨first, others ++ '(' :: ((", ".intercalate (Expr.displayAll xs)).toList ++ [')']), ?_, hfirst,
      fun rest _ => ?_⟩
    · simp [display, htext]
    · rw [List.append_assoc]
      exact hjoins _ (.inr ⟨_, rfl⟩)

/-- **The first token of a statement.** -/
theorem Statement.firstToken (s : Statement) (h : ∀ item ∈ s.items, item.Sound) :
    FirstToken s.firstKind s.terminated.toList fun _ => True := by
  cases s with
  | binding t m x =>
    have ht : t.Is .kwLet "let" := (h (.binding t) List.mem_cons_self).1
    have htext : (Statement.binding t m x).terminated.toList = "let".toList ++ ' ' ::
        (m.name.toList ++ ' ' :: '=' :: ' ' :: ((Expr.display? x).toList ++ [';'])) := by
      simp [terminated, ht.2]
    rw [htext]
    exact .keyword (k := .kwLet) (by decide) (by decide) _ _
  | returning t x =>
    have ht : t.Is .kwReturn "return" := (h (.returning t) List.mem_cons_self).1
    have htext : (Statement.returning t x).terminated.toList = "return".toList ++ ' ' ::
        ((Expr.display? x).toList ++ [';']) := by
      simp [terminated, ht.2]
    rw [htext]
    exact .keyword (k := .kwReturn) (by decide) (by decide) _ _
  | expression x =>
    obtain ⟨first, others, htext, hfirst, hjoins⟩ := x.firstToken h
    refine ⟨first, others ++ [';'], ?_, hfirst, fun rest _ => ?_⟩
    · simp [terminated, htext]
    · rw [List.append_assoc]
      exact hjoins _ (.inl (.sign (by decide)))

/-- The first character of an expression. -/
theorem Expr.exists_head (x : Expr) (h : ∀ item ∈ x.items, item.Sound) :
    ∃ c cs, x.display.toList = c :: cs ∧ Begins c :=
  (x.firstToken h).exists_head x.opens_firstKind

/-- The first character of a statement. -/
theorem Statement.exists_head (s : Statement) (h : ∀ item ∈ s.items, item.Sound) :
    ∃ c cs, s.terminated.toList = c :: cs ∧ Begins c :=
  (s.firstToken h).exists_head s.opens_firstKind

end MonkeySyntax
