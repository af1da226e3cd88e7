import MonkeySyntax.Proofs.Grammar.Derivation
import MonkeySyntax.Proofs.Token.Scanning
import MonkeySyntax.Proofs.Tree.WellFormed
import MonkeySyntax.Tree.Alike

/-! # Canonical texts are derived

The canonical text of a well-formed tree is cut into tokens that the grammar derives as a tree that is
alike, with as many levels as were counted.

* **`Expr.Renders`**, `Block.Renders`, `Statement.Renders` — the statement above for one node, wherever
  its text stands in a source.
* `renders_prefixOp`, `renders_infixOp`, … — one lemma for each kind of node.
* **`Expr.renders`**, `Block.renders`, `Statement.renders` — every well-formed tree renders.
* **`Program.renders`** — the source text of a program. -/

namespace MonkeySyntax

/-! ### What is to be shown -/

/-- **The text of an expression** is derived as a part that is closed in itself. -/
def Expr.Renders (x : Expr) : Prop :=
  ∀ rest, Breaks rest → Lexes x.display.toList rest fun ts =>
    ∃ y n, y.alike x = true ∧ Derives (.part y .call) ts n ∧ n + 1 = x.level

/-- **The text of a block** is derived as a block. -/
def Block.Renders (b : Block) : Prop :=
  ∀ rest, Lexes b.braced.toList rest fun ts =>
    ∃ c, c.alike b = true ∧ Derives (.block c) ts b.level

/-- **The text of a statement** is derived as one that ends in a semicolon. -/
def Statement.Renders (s : Statement) : Prop :=
  ∀ rest, Lexes s.terminated.toList rest fun ts =>
    ∃ r, r.alike s = true ∧ Derives (.statement r) ts s.level ∧
      ts.getLast?.map Token.kind = some .semicolon

/-- **The text of a second branch**, which may be left out. -/
def Block.AlternativeRenders (b : Option Block) : Prop :=
  ∀ rest, Lexes (Block.otherwise? b).toList rest fun ts =>
    ∃ c, Block.alike? c b = true ∧ Derives (.alternative c) ts (Block.alternativeLevel b)

/-- A closed part is an expression wherever one may stand. -/
theorem Derives.whole {x : Expr} {ts : List Token} {n : Nat} {bp : Power}
    (h : Derives (.part x .call) ts n) (hbp : bp < .call) : Derives (.expr bp x) ts (n + 1) :=
  .expr h (.inl hbp)

/-- Elements with a separator between any two of them, told from the first one on. -/
theorem intercalate_cons (separator x : String) (xs : List String) :
    separator.intercalate (x :: xs) = x ++ String.join (xs.map (separator ++ ·)) := by
  induction xs generalizing x with
  | nil => simp
  | cons y ys ih => rw [String.intercalate_cons_cons, ih]; simp [String.append_assoc]

/-! ### Names, numbers and truth values -/

/-- A well-formed name is spelt like an identifier. -/
theorem Identifier.WellFormed.spelt {i : Identifier} (h : i.WellFormed) :
    Kind.identifier.Spelt i.name.toList := by
  obtain ⟨c, cs, hcs, -⟩ := h.exists_cons
  have hspelt : (Kind.ofWord (String.ofList (c :: cs))).Spelt (c :: cs) := .word (hcs ▸ h.isWordChar)
  rw [← hcs, String.ofList_toList] at hspelt
  rcases Kind.ofWord_eq i.name with hkind | hmem
  · rwa [hkind] at hspelt
  · exact absurd (List.mem_map_of_mem hmem) h.not_keyword

/-- A name is read as one token. -/
theorem lexes_name {i : Identifier} (h : i.WellFormed) {rest : List Char} (hrest : Breaks rest) :
    Lexes i.name.toList rest fun ts =>
      ∃ t, ts = [t] ∧ t.kind = .identifier ∧ (Identifier.ofToken t).alike i = true := by
  refine (Lexes.spelling h.spelt _ fun c hc => (hrest c hc).1).imp ?_
  rintro ts ⟨t, rfl, hkind, htext⟩
  rw [String.ofList_toList] at htext
  exact ⟨t, rfl, hkind, by simp [Identifier.alike, Token.alike_iff, hkind, htext, h.kind_eq, h.text_eq]⟩

theorem renders_identifier {i : Identifier} (h : i.WellFormed) : (Expr.identifier i).Renders := by
  intro rest hrest
  refine (lexes_name h hrest).imp ?_
  rintro ts ⟨t, rfl, hkind, halike⟩
  exact ⟨.identifier (.ofToken t), 0, by rwa [Expr.alike], .identifier hkind, rfl⟩

theorem renders_integer {t : Token} {value : Int} (hkind : t.kind = .integer)
    (hvalue : integerValue? t.text = some value) : (Expr.integer t value).Renders := by
  intro rest hrest
  obtain ⟨⟨c, cs, hcs⟩, hdigits⟩ := exists_cons_of_integerValue? hvalue
  have hspelt : Kind.integer.Spelt t.text.toList := by
    rw [hcs] at hdigits ⊢
    exact .number hdigits
  refine (Lexes.spelling hspelt _ fun c hc => (hrest c hc).2).imp ?_
  rintro ts ⟨u, rfl, hu, htext⟩
  rw [String.ofList_toList] at htext
  refine ⟨.integer u value, 0, ?_, .integer hu (by rwa [htext]), rfl⟩
  simp [Expr.alike, Token.alike_iff, hkind, hu, htext]

/-- A keyword is read as one token where a word may end. -/
theorem lexes_keyword {word : String} {k : Kind} (h : (word, k) ∈ keywords) {rest : List Char}
    (hrest : Breaks rest) :
    Lexes word.toList rest fun ts => ∃ t, ts = [t] ∧ t.Is k word := by
  refine (Lexes.spelling (spelt_of_mem_keywords h) _ fun c hc => ?_).imp ?_
  · rw [← Kind.ofWord_of_mem h, Kind.joins_ofWord]
    exact (hrest c hc).1
  · rintro ts ⟨t, rfl, hkind, htext⟩
    exact ⟨t, rfl, hkind, by rw [htext, String.ofList_toList]⟩

theorem Token.Is.alike {t u : Token} {k : Kind} {text : String} (ht : t.Is k text)
    (hu : u.Is k text) : t.alike u = true :=
  Token.alike_iff.2 ⟨ht.1.trans hu.1.symm, ht.2.trans hu.2.symm⟩

theorem renders_boolean {t : Token} {value : Bool}
    (h : if value then t.Is .kwTrue "true" else t.Is .kwFalse "false") :
    (Expr.boolean t value).Renders := by
  intro rest hrest
  cases value with
  | true =>
    have ht : t.Is .kwTrue "true" := h
    rw [Expr.display, ht.2]
    refine (lexes_keyword (k := .kwTrue) (by decide) hrest).imp ?_
    rintro ts ⟨u, rfl, hu⟩
    exact ⟨_, 0, by simp [Expr.alike, hu.alike ht, hu.1], .boolean (.inl hu.1), rfl⟩
  | false =>
    have ht : t.Is .kwFalse "false" := h
    rw [Expr.display, ht.2]
    refine (lexes_keyword (k := .kwFalse) (by decide) hrest).imp ?_
    rintro ts ⟨u, rfl, hu⟩
    exact ⟨_, 0, by simp [Expr.alike, hu.alike ht, hu.1], .boolean (.inr hu.1), rfl⟩

/-! ### Operators -/

/-- What is behind the sign of an operator before its operand does not join it. -/
theorem lexes_prefixSign {k : Kind} {sign : String} (h : (k, sign) ∈ prefixSigns) (rest : List Char)
    (hrest : ∀ c ∈ rest.head?, c ≠ '=') :
    Lexes sign.toList rest fun ts => ∃ t, ts = [t] ∧ t.Is k sign := by
  have hspelt : k.Spelt sign.toList := by
    simp only [prefixSigns, List.mem_cons, Prod.mk.injEq, List.not_mem_nil, or_false] at h
    rcases h with ⟨rfl, rfl⟩ | ⟨rfl, rfl⟩ <;> exact spelt_of_mem_symbols (by decide)
  have hjoins : ∀ c, c ≠ '=' → k.joins c = false := by
    simp only [prefixSigns, List.mem_cons, Prod.mk.injEq, List.not_mem_nil, or_false] at h
    rcases h with ⟨rfl, -⟩ | ⟨rfl, -⟩ <;> simp [Kind.joins]
  refine (Lexes.spelling hspelt _ fun c hc => hjoins c (hrest c hc)).imp ?_
  rintro ts ⟨t, rfl, hkind, htext⟩
  exact ⟨t, rfl, hkind, by rw [htext, String.ofList_toList]⟩

/-- A blank joins no sign between two operands. -/
theorem lexes_infixSign {k : Kind} {sign : String} (h : (k, sign) ∈ infixSigns) (rest : List Char) :
    Lexes sign.toList (' ' :: rest) fun ts => ∃ t, ts = [t] ∧ t.Is k sign := by
  have hjoins : ∀ p ∈ infixSigns, p.1.joins ' ' = false := by decide
  have hfixed : ∀ p ∈ infixSigns, p.1.IsFixed ∧ p.1.spelling = p.2 := by decide
  obtain ⟨hk, hspelling⟩ := hfixed _ h
  have hspelt : k.Spelt sign.toList := by
    have h := spelt_spelling hk
    rwa [show k.spelling = sign from hspelling] at h
  refine (Lexes.spelling hspelt _ fun c hc => ?_).imp ?_
  · obtain rfl : ' ' = c := by simpa using hc
    exact hjoins _ h
  · rintro ts ⟨t, rfl, hkind, htext⟩
    exact ⟨t, rfl, hkind, by rw [htext, String.ofList_toList]⟩

/-- The binding power of such a sign. -/
theorem exists_power_of_mem_infixSigns {k : Kind} {sign : String} (h : (k, sign) ∈ infixSigns) :
    ∃ bp, k.binaryPower? = some bp ∧ .lowest < bp ∧ bp < .call := by
  simp only [infixSigns, List.mem_cons, Prod.mk.injEq, List.not_mem_nil, or_false] at h
  rcases h with ⟨rfl, -⟩ | ⟨rfl, -⟩ | ⟨rfl, -⟩ | ⟨rfl, -⟩ | ⟨rfl, -⟩ | ⟨rfl, -⟩ | ⟨rfl, -⟩ | ⟨rfl, -⟩ <;>
    exact ⟨_, rfl, by decide, by decide⟩

theorem renders_prefixOp {t : Token} {o : String} {x : Expr} (ht : (t.kind, t.text) ∈ prefixSigns)
    (ho : o = t.text) (hx : x.Renders) (hhead : ∃ c cs, x.display.toList = c :: cs ∧ c ≠ '=') :
    (Expr.prefixOp t o (some x)).Renders := by
  intro rest _
  have htext : (Expr.prefixOp t o (some x)).display.toList =
      '(' :: (t.text.toList ++ (x.display.toList ++ [')'])) := by
    simp [Expr.display, Expr.display?, ho]
  -- the operand does not begin with `=`, so `!` is not read as the beginning of `!=`
  have hsign := lexes_prefixSign ht (x.display.toList ++ [')'] ++ rest) fun c hc => by
    obtain ⟨d, ds, hd, hne⟩ := hhead
    obtain rfl : d = c := by simpa [hd] using hc
    exact hne
  have hoperand := (hx (')' :: rest) (breaks_cons (by decide))).append
    (Lexes.symbol (k := .closeParen) (by decide) (fun _ => rfl) Lexes.nil)
  rw [htext]
  refine (Lexes.symbol (k := .openParen) (by decide) (fun _ => rfl) (hsign.append hoperand)).imp ?_
  rintro ts ⟨a, -, rfl, ha, -, -, rfl, ⟨u, rfl, hu⟩, xs, -, rfl, ⟨y, n, hy, hxs, hn⟩, c, -, rfl, hc, rfl⟩
  have hkind : u.kind = .bang ∨ u.kind = .minus := by
    rw [hu.1]
    simpa [prefixSigns] using (List.mem_map_of_mem (f := Prod.fst) ht : _ ∈ prefixSigns.map Prod.fst)
  refine ⟨.prefixOp u u.text (some y), n + 1 + 1, ?_, ?_, ?_⟩
  · simp [Expr.alike, Expr.alike?, hy, hu.alike ⟨rfl, rfl⟩, hu.2, ho]
  · exact .grouping ha (.expr (.prefixOp hkind (hxs.whole (by decide))) (.inl (by decide))) hc
  · -- the parentheses take one level and the operand another one
    rw [Expr.level, Expr.level?, ← hn]
    omega

theorem renders_infixOp {t : Token} {o : String} {l x : Expr} (ht : (t.kind, t.text) ∈ infixSigns)
    (ho : o = t.text) (hl : l.Renders) (hx : x.Renders) :
    (Expr.infixOp t o l (some x)).Renders := by
  intro rest _
  have htext : (Expr.infixOp t o l (some x)).display.toList =
      '(' :: (l.display.toList ++ ' ' :: (t.text.toList ++ ' ' :: (x.display.toList ++ [')']))) := by
    simp [Expr.display, Expr.display?, ho]
  have hright := Lexes.blank <| (hx (')' :: rest) (breaks_cons (by decide))).append
    (Lexes.symbol (k := .closeParen) (by decide) (fun _ => rfl) Lexes.nil)
  have hoperator := Lexes.blank <| (lexes_infixSign ht _).append hright
  have hleft := (hl _ (breaks_cons (by decide))).append hoperator
  rw [htext]
  refine (Lexes.symbol (k := .openParen) (by decide) (fun _ => rfl) hleft).imp ?_
  rintro ts ⟨a, -, rfl, ha, ls, -, rfl, ⟨m, j, hm, hls, hj⟩, -, -, rfl, ⟨u, rfl, hu⟩, xs, -, rfl,
    ⟨y, n, hy, hxs, hn⟩, c, -, rfl, hc, rfl⟩
  -- both operands are closed in themselves, so they may stand on either side of any sign
  obtain ⟨bp, hbp, hlow, hcall⟩ := exists_power_of_mem_infixSigns ht
  rw [← hu.1] at hbp
  have hinfix := Derives.infixOp hls hbp (Nat.le_of_lt hcall) (hxs.whole hcall)
  refine ⟨.infixOp u u.text m (some y), max j (n + 1) + 1, ?_, ?_, ?_⟩
  · simp [Expr.alike, Expr.alike?, hm, hy, hu.alike ⟨rfl, rfl⟩, hu.2, ho]
  · have hgroup := Derives.grouping ha (.expr hinfix (.inl hlow)) hc
    rwa [List.append_assoc] at hgroup
  · rw [Expr.level, Expr.level?, ← hj, ← hn]
    omega

/-! ### Lists between parentheses -/

/-- A comma ends what stands before it. -/
theorem breaks_further {α : Type} (f : α → String) (xs : List α) {rest : List Char}
    (hrest : Breaks rest) : Breaks ((String.join (xs.map (", " ++ f ·))).toList ++ rest) := by
  cases xs with
  | nil => exact hrest
  | cons x xs => simpa using breaks_cons (by decide)

theorem renders_furtherArguments {xs : List Expr} (hxs : ∀ x ∈ xs, x.Renders) {rest : List Char}
    (hrest : Breaks rest) :
    Lexes (String.join (xs.map (", " ++ ·.display))).toList rest fun ts =>
      ∃ ys, Expr.allAlike ys xs = true ∧ Derives (.furtherArguments ys) ts (Expr.levelAll xs) := by
  induction xs with
  | nil =>
    refine Lexes.nil.imp ?_
    rintro ts rfl
    exact ⟨[], rfl, .lastArgument⟩
  | cons x xs ih =>
    obtain ⟨hx, hxs⟩ := List.forall_mem_cons.1 hxs
    have htext : (String.join ((x :: xs).map (", " ++ ·.display))).toList =
        ',' :: ' ' :: (x.display.toList ++ (String.join (xs.map (", " ++ ·.display))).toList) := by
      simp
    rw [htext]
    refine (Lexes.symbol (k := .comma) (by decide) (fun _ => rfl)
      (Lexes.blank ((hx _ (breaks_further _ _ hrest)).append (ih hxs)))).imp ?_
    rintro ts ⟨c, -, rfl, hc, as, bs, rfl, ⟨y, n, hy, has, hn⟩, ys, hys, hbs⟩
    refine ⟨y :: ys, by simp [Expr.allAlike, hy, hys], ?_⟩
    rw [Expr.levelAll, ← hn]
    exact .furtherArgument hc (has.whole (by decide)) hbs

theorem renders_arguments {xs : List Expr} (hxs : ∀ x ∈ xs, x.Renders) {rest : List Char}
    (hrest : Breaks rest) :
    Lexes (", ".intercalate (Expr.displayAll xs)).toList rest fun ts =>
      ∃ ys, Expr.allAlike ys xs = true ∧ Derives (.arguments ys) ts (Expr.levelAll xs) := by
  cases xs with
  | nil =>
    refine Lexes.nil.imp ?_
    rintro ts rfl
    exact ⟨[], rfl, .noArguments⟩
  | cons x xs =>
    obtain ⟨hx, hxs⟩ := List.forall_mem_cons.1 hxs
    have htext : (", ".intercalate (Expr.displayAll (x :: xs))).toList =
        x.display.toList ++ (String.join (xs.map (", " ++ ·.display))).toList := by
      rw [Expr.displayAll_eq_map, List.map_cons, intercalate_cons, String.toList_append, List.map_map]
      rfl
    rw [htext]
    refine ((hx _ (breaks_further _ _ hrest)).append (renders_furtherArguments hxs hrest)).imp ?_
    rintro ts ⟨as, bs, rfl, ⟨y, n, hy, has, hn⟩, ys, hys, hbs⟩
    refine ⟨y :: ys, by simp [Expr.allAlike, hy, hys], ?_⟩
    rw [Expr.levelAll, ← hn]
    exact .arguments (has.whole (by decide)) hbs

theorem renders_furtherParameters {is : List Identifier} (his : ∀ i ∈ is, i.WellFormed)
    {rest : List Char} (hrest : Breaks rest) :
    Lexes (String.join (is.map (", " ++ ·.name))).toList rest fun ts =>
      ∃ js, Identifier.allAlike js is = true ∧ Derives (.furtherParameters js) ts 0 := by
  induction is with
  | nil =>
    refine Lexes.nil.imp ?_
    rintro ts rfl
    exact ⟨[], rfl, .lastParameter⟩
  | cons i is ih =>
    obtain ⟨hi, his⟩ := List.forall_mem_cons.1 his
    have htext : (String.join ((i :: is).map (", " ++ ·.name))).toList =
        ',' :: ' ' :: (i.name.toList ++ (String.join (is.map (", " ++ ·.name))).toList) := by
      simp
    rw [htext]
    refine (Lexes.symbol (k := .comma) (by decide) (fun _ => rfl)
      (Lexes.blank ((lexes_name hi (breaks_further _ _ hrest)).append (ih his)))).imp ?_
    rintro ts ⟨c, -, rfl, hc, -, bs, rfl, ⟨t, rfl, ht, hname⟩, js, hjs, hbs⟩
    exact ⟨.ofToken t :: js, by simp [Identifier.allAlike, hname, hjs], .furtherParameter hc ht hbs⟩

theorem renders_parameters {is : List Identifier} (his : ∀ i ∈ is, i.WellFormed)
    {rest : List Char} (hrest : Breaks rest) :
    Lexes (", ".intercalate (is.map (·.name))).toList rest fun ts =>
      ∃ js, Identifier.allAlike js is = true ∧ Derives (.parameters js) ts 0 := by
  cases is with
  | nil =>
    refine Lexes.nil.imp ?_
    rintro ts rfl
    exact ⟨[], rfl, .noParameters⟩
  | cons i is =>
    obtain ⟨hi, his⟩ := List.forall_mem_cons.1 his
    have htext : (", ".intercalate ((i :: is).map (·.name))).toList =
        i.name.toList ++ (String.join (is.map (", " ++ ·.name))).toList := by
      rw [List.map_cons, intercalate_cons, String.toList_append, List.map_map]
      rfl
    rw [htext]
    refine ((lexes_name hi (breaks_further _ _ hrest)).append
      (renders_furtherParameters his hrest)).imp ?_
    rintro ts ⟨-, bs, rfl, ⟨t, rfl, ht, hname⟩, js, hjs, hbs⟩
    exact ⟨.ofToken t :: js, by simp [Identifier.allAlike, hname, hjs], .parameters ht hbs⟩

theorem renders_call {t : Token} {f : Expr} {xs : List Expr} (ht : t.Is .openParen "(")
    (hf : f.Renders) (hxs : ∀ x ∈ xs, x.Renders) : (Expr.call t f xs).Renders := by
  intro rest _
  have htext : (Expr.call t f xs).display.toList = f.display.toList ++
      '(' :: ((", ".intercalate (Expr.displayAll xs)).toList ++ [')']) := by
    simp [Expr.display]
  have hopen : Kind.openParen.Spelt ['('] := spelt_of_mem_symbols (by decide)
  have hlist := (renders_arguments hxs (breaks_cons (by decide) : Breaks (')' :: rest))).append
    (Lexes.symbol (k := .closeParen) (by decide) (fun _ => rfl) Lexes.nil)
  have hparen := (Lexes.spelling hopen (_ ++ rest) fun _ _ => rfl).append hlist
  rw [htext]
  refine ((hf _ (breaks_cons (by decide))).append hparen).imp ?_
  rintro ts ⟨fs, -, rfl, ⟨g, m, hg, hfs, hm⟩, -, -, rfl, ⟨o, rfl, ho, hotext⟩, as, -, rfl,
    ⟨ys, hys, has⟩, c, -, rfl, hc, rfl⟩
  have halike : o.alike t = true := Token.Is.alike ⟨ho, hotext⟩ ht
  refine ⟨.call o g ys, max m (Expr.levelAll xs), by simp [Expr.alike, halike, hg, hys],
    .call hfs ho has hc, ?_⟩
  rw [Expr.level, ← hm]
  omega

/-! ### Blocks and what holds them -/

/-- Statements that end in semicolons never continue each other. -/
theorem renders_statements {ss : List Statement} (hss : ∀ s ∈ ss, s.Renders) (rest : List Char) :
    Lexes (String.join (Statement.spacedAll ss)).toList rest fun ts =>
      ∃ rs, Statement.allAlike rs ss = true ∧ Derives (.statements rs) ts (Statement.levelAll ss) := by
  induction ss with
  | nil =>
    refine Lexes.nil.imp ?_
    rintro ts rfl
    exact ⟨[], rfl, .noStatements⟩
  | cons s ss ih =>
    obtain ⟨hs, hss⟩ := List.forall_mem_cons.1 hss
    have htext : (String.join (Statement.spacedAll (s :: ss))).toList =
        s.terminated.toList ++ ' ' :: (String.join (Statement.spacedAll ss)).toList := by
      simp [Statement.spacedAll]
    rw [htext]
    refine ((hs _).append (Lexes.blank (ih hss))).imp ?_
    -- the semicolon separates the statement from the next one, whatever that begins with
    rintro ts ⟨as, bs, rfl, ⟨r, hr, has, hlast⟩, rs, hrs, hbs⟩
    exact ⟨r :: rs, by simp [Statement.allAlike, hr, hrs], .statements has hbs (.inl hlast)⟩

theorem renders_block {t : Token} {ss : List Statement} (ht : t.Is .openBrace "\x7b")
    (hss : ∀ s ∈ ss, s.Renders) : (Block.mk t ss).Renders := by
  intro rest
  have htext : (Block.mk t ss).braced.toList =
      ['\x7b'] ++ ' ' :: ((String.join (Statement.spacedAll ss)).toList ++ ['\x7d']) := by
    simp [Block.braced]
  have hopen : Kind.openBrace.Spelt ['\x7b'] := spelt_of_mem_symbols (by decide)
  have hitems := Lexes.blank ((renders_statements hss ('\x7d' :: rest)).append
    (Lexes.symbol (k := .closeBrace) (by decide) (fun _ => rfl) Lexes.nil))
  rw [htext]
  refine ((Lexes.spelling hopen (_ ++ rest) fun _ _ => rfl).append hitems).imp ?_
  rintro ts ⟨-, -, rfl, ⟨o, rfl, ho, hotext⟩, as, -, rfl, ⟨rs, hrs, has⟩, c, -, rfl, hc, rfl⟩
  have halike : o.alike t = true := Token.Is.alike ⟨ho, hotext⟩ ht
  exact ⟨⟨o, rs⟩, by simp [Block.alike, halike, hrs], .block ho has hc⟩

theorem renders_noAlternative : Block.AlternativeRenders none := by
  intro rest
  refine Lexes.nil.imp ?_
  rintro ts rfl
  exact ⟨none, rfl, .noAlternative⟩

theorem renders_alternative {b : Block} (hb : b.Renders) : Block.AlternativeRenders (some b) := by
  intro rest
  have htext : (Block.otherwise? (some b)).toList = ' ' :: ("else".toList ++ ' ' :: b.braced.toList) := by
    simp [Block.otherwise?]
  rw [htext]
  refine (Lexes.blank ((lexes_keyword (k := .kwElse) (by decide) (breaks_cons (by decide))).append
    (Lexes.blank (hb rest)))).imp ?_
  rintro ts ⟨-, bs, rfl, ⟨e, rfl, he⟩, c, hc, hbs⟩
  exact ⟨some c, hc, .alternative he.1 hbs⟩

theorem renders_conditional {t : Token} {c : Expr} {a : Block} {e : Option Block}
    (ht : t.Is .kwIf "if") (hc : c.Renders) (ha : a.Renders) (he : Block.AlternativeRenders e) :
    (Expr.conditional t (some c) a e).Renders := by
  intro rest _
  have htext : (Expr.conditional t (some c) a e).display.toList = "if".toList ++
      ' ' :: '(' :: (c.display.toList ++ ')' :: ' ' ::
        (a.braced.toList ++ (Block.otherwise? e).toList)) := by
    simp [Expr.display, Expr.display?, ht.2]
  have hblocks := (ha ((Block.otherwise? e).toList ++ rest)).append (he rest)
  have hcondition := (hc (')' :: _) (breaks_cons (by decide))).append
    (Lexes.symbol (c := ')') (k := .closeParen) (by decide) (fun _ => rfl) (Lexes.blank hblocks))
  rw [htext]
  refine ((lexes_keyword (k := .kwIf) (by decide) (breaks_cons (by decide))).append
    (Lexes.blank (Lexes.symbol (k := .openParen) (by decide) (fun _ => rfl) hcondition))).imp ?_
  rintro ts ⟨-, -, rfl, ⟨u, rfl, hu⟩, o, -, rfl, ho, cs, -, rfl, ⟨y, n, hy, hcs, hn⟩, d, -, rfl, hd,
    as, bs, rfl, ⟨b, hb, has⟩, f, hf, hbs⟩
  refine ⟨_, _, ?_, .conditional hu.1 ho (hcs.whole (by decide)) hd has hbs, ?_⟩
  · simp [Expr.alike, Expr.alike?, hu.alike ht, hy, hb, hf]
  · rw [Expr.level, Expr.level?, ← hn]
    omega

theorem renders_function {t : Token} {is : List Identifier} {b : Block} (ht : t.Is .kwFn "fn")
    (his : ∀ i ∈ is, i.WellFormed) (hb : b.Renders) : (Expr.function t is b).Renders := by
  intro rest _
  have htext : (Expr.function t is b).display.toList = "fn".toList ++
      '(' :: ((", ".intercalate (is.map (·.name))).toList ++ ')' :: ' ' :: b.braced.toList) := by
    simp [Expr.display, ht.2]
  have hparameters := (renders_parameters his (breaks_cons (by decide) : Breaks (')' :: _))).append
    (Lexes.symbol (c := ')') (k := .closeParen) (by decide) (fun _ => rfl) (Lexes.blank (hb rest)))
  rw [htext]
  refine ((lexes_keyword (k := .kwFn) (by decide) (breaks_cons (by decide))).append
    (Lexes.symbol (k := .openParen) (by decide) (fun _ => rfl) hparameters)).imp ?_
  rintro ts ⟨-, -, rfl, ⟨u, rfl, hu⟩, o, -, rfl, ho, as, -, rfl, ⟨js, hjs, has⟩, d, bs, rfl, hd, c, hc,
    hbs⟩
  refine ⟨_, _, ?_, .function hu.1 ho has hd hbs, ?_⟩
  · simp [Expr.alike, hu.alike ht, hjs, hc]
  · rw [Expr.level, Nat.add_comm]

/-! ### Statements -/

/-- The semicolon that ends a statement. -/
theorem lexes_semicolon (rest : List Char) :
    Lexes [';'] rest fun ts => ∃ t, ts = [t] ∧ t.kind = .semicolon := by
  refine (Lexes.symbol (k := .semicolon) (by decide) (fun _ => rfl) Lexes.nil).imp ?_
  rintro ts ⟨t, -, rfl, ht, rfl⟩
  exact ⟨t, rfl, ht⟩

theorem renders_binding {t : Token} {i : Identifier} {x : Expr} (ht : t.Is .kwLet "let")
    (hi : i.WellFormed) (hx : x.Renders) : (Statement.binding t i (some x)).Renders := by
  intro rest
  have htext : (Statement.binding t i (some x)).terminated.toList = "let".toList ++
      ' ' :: (i.name.toList ++ ' ' :: (['='] ++ ' ' :: (x.display.toList ++ [';']))) := by
    simp [Statement.terminated, Expr.display?, ht.2]
  have hassign : Kind.assign.Spelt ['='] := spelt_of_mem_symbols (by decide)
  have hvalue := Lexes.blank ((hx (';' :: rest) (breaks_cons (by decide))).append (lexes_semicolon rest))
  have hequals := Lexes.blank ((Lexes.spelling hassign (' ' :: _) fun c hc => by
    obtain rfl : ' ' = c := by simpa using hc
    rfl).append hvalue)
  have hname := Lexes.blank ((lexes_name hi (breaks_cons (by decide) : Breaks (' ' :: _))).append
    hequals)
  rw [htext]
  refine ((lexes_keyword (k := .kwLet) (by decide) (breaks_cons (by decide))).append hname).imp ?_
  rintro ts ⟨-, -, rfl, ⟨u, rfl, hu⟩, -, -, rfl, ⟨v, rfl, hv, hname⟩, -, -, rfl, ⟨a, rfl, ha, -⟩, xs, -,
    rfl, ⟨y, n, hy, hxs, hn⟩, c, rfl, hc⟩
  refine ⟨.binding u (.ofToken v) (some y), ?_, ?_, by simp [List.getLast?_cons, hc]⟩
  · simp [Statement.alike, Expr.alike?, hu.alike ht, hname, hy]
  · rw [Statement.level, Expr.level?, ← hn]
    have hwhole : Derives (.expr .lowest y) xs (n + 1) := hxs.whole (by decide)
    have hsemicolon : ∀ u ∈ [c], u.kind = .semicolon := by simpa using hc
    have hderives := Derives.binding hu.1 hv ha hwhole hsemicolon
    exact hderives

theorem renders_returning {t : Token} {x : Expr} (ht : t.Is .kwReturn "return") (hx : x.Renders) :
    (Statement.returning t (some x)).Renders := by
  intro rest
  have htext : (Statement.returning t (some x)).terminated.toList = "return".toList ++
      ' ' :: (x.display.toList ++ [';']) := by
    simp [Statement.terminated, Expr.display?, ht.2]
  have hvalue := Lexes.blank ((hx (';' :: rest) (breaks_cons (by decide))).append (lexes_semicolon rest))
  rw [htext]
  refine ((lexes_keyword (k := .kwReturn) (by decide) (breaks_cons (by decide))).append hvalue).imp ?_
  rintro ts ⟨-, -, rfl, ⟨u, rfl, hu⟩, xs, -, rfl, ⟨y, n, hy, hxs, hn⟩, c, rfl, hc⟩
  refine ⟨.returning u (some y), ?_, ?_, by simp [List.getLast?_cons, hc]⟩
  · simp [Statement.alike, Expr.alike?, hu.alike ht, hy]
  · rw [Statement.level, Expr.level?, ← hn]
    have hwhole : Derives (.expr .lowest y) xs (n + 1) := hxs.whole (by decide)
    have hsemicolon : ∀ u ∈ [c], u.kind = .semicolon := by simpa using hc
    have hderives := Derives.returning hu.1 hwhole hsemicolon
    exact hderives

theorem renders_expression {x : Expr} (hx : x.Renders) : (Statement.expression x).Renders := by
  intro rest
  have htext : (Statement.expression x).terminated.toList = x.display.toList ++ [';'] := by
    simp [Statement.terminated]
  rw [htext]
  refine ((hx (';' :: rest) (breaks_cons (by decide))).append (lexes_semicolon rest)).imp ?_
  rintro ts ⟨xs, -, rfl, ⟨y, n, hy, hxs, hn⟩, c, rfl, hc⟩
  refine ⟨.expression y, by simp [Statement.alike, hy], ?_, by simp [hc]⟩
  rw [Statement.level, ← hn]
  exact .expression (hxs.whole (by decide)) le_rfl (by simpa using hc)

/-! ### Every well-formed tree renders -/

mutual

/-- **The text of every well-formed expression is derived.** -/
theorem Expr.renders : (x : Expr) → x.WellFormed → x.Renders
  | .identifier _, h => renders_identifier h
  | .integer _ _, h => renders_integer h.1 h.2
  | .boolean _ _, h => renders_boolean h
  | .prefixOp _ _ (some x), h => renders_prefixOp h.1 h.2.1 (Expr.renders x h.2.2) (x.head_display h.2.2)
  | .prefixOp _ _ none, h => h.2.2.elim
  | .infixOp _ _ l (some x), h =>
    renders_infixOp h.1 h.2.1 (Expr.renders l h.2.2.1) (Expr.renders x h.2.2.2)
  | .infixOp _ _ _ none, h => h.2.2.2.elim
  | .conditional _ (some c) a e, h =>
    renders_conditional h.1 (Expr.renders c h.2.1) (Block.renders a h.2.2.1)
      (Block.alternativeRenders e h.2.2.2)
  | .conditional _ none _ _, h => h.2.1.elim
  | .function _ _ b, h => renders_function h.1 h.2.1 (Block.renders b h.2.2)
  | .call _ f xs, h => renders_call h.1 (Expr.renders f h.2.1) (Expr.allRender xs h.2.2)

theorem Expr.allRender : (xs : List Expr) → Expr.AllWellFormed xs → ∀ x ∈ xs, x.Renders
  | [], _ => nofun
  | x :: xs, h => List.forall_mem_cons.2 ⟨Expr.renders x h.1, Expr.allRender xs h.2⟩

/-- **The text of every well-formed block is derived.** -/
theorem Block.renders : (b : Block) → b.WellFormed → b.Renders
  | ⟨_, ss⟩, h => renders_block h.1 (Statement.allRender ss h.2)

theorem Block.alternativeRenders : (b : Option Block) → Block.AlternativeWellFormed b →
    Block.AlternativeRenders b
  | none, _ => renders_noAlternative
  | some b, h => renders_alternative (Block.renders b h)

/-- **The text of every well-formed statement is derived.** -/
theorem Statement.renders : (s : Statement) → s.WellFormed → s.Renders
  | .binding _ _ (some x), h => renders_binding h.1 h.2.1 (Expr.renders x h.2.2)
  | .binding _ _ none, h => h.2.2.elim
  | .returning _ (some x), h => renders_returning h.1 (Expr.renders x h.2)
  | .returning _ none, h => h.2.elim
  | .expression x, h => renders_expression (Expr.renders x h)

theorem Statement.allRender : (ss : List Statement) → Statement.AllWellFormed ss →
    ∀ s ∈ ss, s.Renders
  | [], _ => nofun
  | s :: ss, h => List.forall_mem_cons.2 ⟨Statement.renders s h.1, Statement.allRender ss h.2⟩

end

/-- Statements with a blank between any two of them. -/
theorem renders_program {ss : List Statement} (hss : ∀ s ∈ ss, s.Renders) :
    Lexes (" ".intercalate (ss.map Statement.terminated)).toList [] fun ts =>
      ∃ rs, Statement.allAlike rs ss = true ∧ Derives (.statements rs) ts (Statement.levelAll ss) := by
  induction ss with
  | nil =>
    refine Lexes.nil.imp ?_
    rintro ts rfl
    exact ⟨[], rfl, .noStatements⟩
  | cons s ss ih =>
    obtain ⟨hs, hss⟩ := List.forall_mem_cons.1 hss
    -- no blank stands behind the last statement
    cases ss with
    | nil =>
      rw [List.map_cons, List.map_nil, String.intercalate_singleton]
      refine (hs []).imp ?_
      rintro ts ⟨r, hr, hts, hlast⟩
      refine ⟨[r], by simp [Statement.allAlike, hr], ?_⟩
      have hone := Derives.statements hts .noStatements (.inl hlast)
      rwa [List.append_nil] at hone
    | cons r ss =>
      have htext : (" ".intercalate ((s :: r :: ss).map Statement.terminated)).toList =
          s.terminated.toList ++
            ' ' :: (" ".intercalate ((r :: ss).map Statement.terminated)).toList := by
        simp
      rw [htext]
      refine ((hs _).append (Lexes.blank (ih hss))).imp ?_
      rintro ts ⟨as, bs, rfl, ⟨u, hu, has, hlast⟩, us, hus, hbs⟩
      exact ⟨u :: us, by simp [Statement.allAlike, hu, hus], .statements has hbs (.inl hlast)⟩

/-- **The source text of a well-formed program** is cut into tokens that the grammar derives as a
program that is alike, with as many levels as its deepest statement has. -/
theorem Program.renders {p : Program} (h : p.WellFormed) (file : String) :
    ∃ rs, Statement.allAlike rs p.statements = true ∧
      Derives (.statements rs) (tokenize p.toSource file).dropLast (Statement.levelAll p.statements) :=
  (renders_program (Statement.allRender p.statements h.statements)).tokenize file

end MonkeySyntax
