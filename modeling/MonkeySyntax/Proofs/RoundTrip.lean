import MonkeySyntax.Proofs.Grammar.Acceptance
import MonkeySyntax.Proofs.Tree.AlikeText
import MonkeySyntax.Proofs.Tree.Derived
import MonkeySyntax.Proofs.Tree.Rendering

/-! # Source texts are read back

The source text of a program puts every operator in parentheses, so reading it back needs more levels
than reading the program did.

* `parse_toSource`, `level_le_of_parse_toSource` — a well-formed program is read back from its source
  text when its statements stay within 256 levels, and is rejected when they do not.
* **`toSource_roundTrip_iff`** — reading undoes printing exactly within the limit.
* **`accepted_roundTrip_iff`** — the same for what has been read from a source that was accepted. -/

namespace MonkeySyntax

/-- Within the limit a well-formed program **is read back** from its source text. -/
theorem parse_toSource {p : Program} (hp : p.WellFormed) (hlevel : ∀ s ∈ p.statements, s.level ≤ 256) :
    (parse p.toSource).diagnostics = [] ∧ (parse p.toSource).program.alike p = true := by
  obtain ⟨rs, halike, hderives⟩ := Program.renders hp defaultFileName
  obtain ⟨hnone, hprogram⟩ := (parse_accepts p.toSource ⟨rs⟩).2
    ⟨_, Statement.levelAll_le_iff.2 hlevel, hderives⟩
  rw [hprogram]
  exact ⟨hnone, halike⟩

/-- Beyond the limit the source text of a well-formed program **is rejected**. -/
theorem level_le_of_parse_toSource {p : Program} (hp : p.WellFormed)
    (h : (parse p.toSource).diagnostics = []) : ∀ s ∈ p.statements, s.level ≤ 256 := by
  obtain ⟨rs, -, hderives⟩ := Program.renders hp defaultFileName
  obtain ⟨n, hn, hread⟩ := (parse_accepts p.toSource _).1 ⟨h, rfl⟩
  -- the levels of the text are determined by its tokens
  obtain ⟨-, rfl⟩ := hread.statements_unique hderives
  exact Statement.levelAll_le_iff.1 hn

/-- **Reading undoes printing** on every well-formed program, exactly within the limit: its source
text gives a program that is alike and no diagnostic if and only if none of its statements has more
than 256 levels. -/
theorem toSource_roundTrip_iff {p : Program} (hp : p.WellFormed) :
    (parse p.toSource).diagnostics = [] ∧ (parse p.toSource).program.alike p = true ↔
      ∀ s ∈ p.statements, s.level ≤ 256 :=
  ⟨fun h => level_le_of_parse_toSource hp h.1, parse_toSource hp⟩

/-- A negation is read back. -/
theorem toSource_roundTrip_negation :
    let name := Identifier.ofToken (.ofText defaultFileName 1 .identifier ['a'])
    let minus := Token.ofText defaultFileName 0 .minus ['-']
    let p : Program := ⟨[.expression (.prefixOp minus "-" (some (.identifier name)))]⟩
    p.WellFormed ∧ (parse p.toSource).diagnostics = [] ∧
      (parse p.toSource).program.alike p = true := by
  intro name minus p
  have hname : name.WellFormed := ⟨rfl, rfl, by decide, List.all_eq_true.1 (by decide), by decide⟩
  have hp : p.WellFormed := ⟨⟨by decide, rfl, hname⟩, trivial⟩
  exact ⟨hp, (toSource_roundTrip_iff hp).2 (by decide)⟩

/-- A program that was read from a source without a diagnostic is well formed. -/
theorem wellFormed_of_accepted {source : String} (h : (parse source).diagnostics = []) :
    (parse source).program.WellFormed := by
  obtain ⟨n, -, hread⟩ := (parse_accepts source _).1 ⟨h, rfl⟩
  obtain ⟨ts, t, hts, -, hspelt⟩ := exists_tokenize_eq defaultFileName source
  rw [hts, List.dropLast_concat] at hread
  exact Program.wellFormed_of_derives hread hspelt

/-- **What was accepted is read back** from its source text, with the same source text again, if and
only if none of its statements has more than 256 levels there. -/
theorem accepted_roundTrip_iff {source : String} (h : (parse source).diagnostics = []) :
    ((parse (parse source).program.toSource).diagnostics = [] ∧
      (parse (parse source).program.toSource).program.alike (parse source).program = true ∧
      (parse (parse source).program.toSource).program.toSource = (parse source).program.toSource) ↔
      ∀ s ∈ (parse source).program.statements, s.level ≤ 256 := by
  have hwell := wellFormed_of_accepted h
  constructor
  · exact fun hagain => level_le_of_parse_toSource hwell hagain.1
  · intro hlevel
    obtain ⟨hnone, halike⟩ := parse_toSource hwell hlevel
    exact ⟨hnone, halike, Program.toSource_eq halike⟩

/-- A negation is accepted and read back. -/
theorem accepted_roundTrip_negation :
    (parse "-a").diagnostics = [] ∧ (parse (parse "-a").program.toSource).diagnostics = [] ∧
      (parse (parse "-a").program.toSource).program.alike (parse "-a").program = true ∧
      (parse (parse "-a").program.toSource).program.toSource = (parse "-a").program.toSource := by
  have haccepted : (parse "-a").diagnostics = [] := by decide +kernel
  exact ⟨haccepted, (accepted_roundTrip_iff haccepted).2 (by decide +kernel)⟩

/-! ### Long sums -/

/-- A sum of `n + 1` names. -/
def sumSource (n : Nat) : String :=
  String.ofList ('a' :: (List.replicate n ['+', 'a']).flatten)

/-- The name `a` is one token. -/
theorem lexes_a {rest : List Char} (hrest : Breaks rest) :
    Lexes ['a'] rest fun ts => ∃ t, ts = [t] ∧ t.kind = .identifier := by
  have hspelt : (Kind.ofWord (String.ofList ['a'])).Spelt ['a'] :=
    .word (List.all_eq_true.1 (by decide))
  rw [show Kind.ofWord (String.ofList ['a']) = .identifier from by decide] at hspelt
  refine (Lexes.spelling hspelt _ fun c hc => (hrest c hc).1).imp ?_
  rintro ts ⟨t, rfl, ht, -⟩
  exact ⟨t, rfl, ht⟩

/-- A sum is read with two levels at most, however long it is, but each of its operators adds one to
the levels of its canonical text. -/
theorem lexes_sum (n : Nat) {rest : List Char} (hrest : Breaks rest) :
    Lexes ('a' :: (List.replicate n ['+', 'a']).flatten) rest fun ts =>
      ∃ x s m, Derives (.part x s) ts m ∧ .sum ≤ s ∧ m ≤ 1 ∧ n + 1 ≤ x.level := by
  induction n generalizing rest with
  | zero =>
    refine (lexes_a hrest).imp ?_
    rintro ts ⟨t, rfl, ht⟩
    exact ⟨_, .call, 0, .identifier ht, by decide, by decide, by rw [Expr.level]⟩
  | succ n ih =>
    have htext : 'a' :: (List.replicate (n + 1) ['+', 'a']).flatten =
        'a' :: (List.replicate n ['+', 'a']).flatten ++ '+' :: ['a'] := by
      rw [List.replicate_succ', List.flatten_append]
      simp
    rw [htext]
    -- the sum so far is the left operand, which may bind as tightly as the sign behind it
    refine ((ih (breaks_cons (by decide))).append
      (Lexes.symbol (k := .plus) (by decide) (fun _ => rfl) (lexes_a hrest))).imp ?_
    rintro ts ⟨ls, -, rfl, ⟨x, s, m, hx, hs, hm, hlevel⟩, o, -, rfl, ho, t, rfl, ht⟩
    have hright : Derives (.expr .sum (.identifier (.ofToken t))) [t] 1 :=
      .expr (.identifier ht) (.inl (by decide))
    refine ⟨_, .sum, _, .infixOp hx (by rw [ho]; rfl) hs hright, Nat.le_refl _, ?_, ?_⟩
    · exact Nat.max_le.2 ⟨hm, le_rfl⟩
    · rw [Expr.level]
      omega

/-- **A long sum is accepted and its source text is not.** -/
theorem parse_sumSource {n : Nat} (hn : 256 ≤ n) :
    (parse (sumSource n)).diagnostics = [] ∧
      (parse (parse (sumSource n)).program.toSource).diagnostics ≠ [] := by
  have hlexes := lexes_sum n breaks_nil
  rw [← String.toList_ofList (l := 'a' :: _), ← sumSource] at hlexes
  obtain ⟨x, s, m, hx, hs, hm, hlevel⟩ := hlexes.tokenize defaultFileName
  have hlow : Power.lowest < s := Nat.lt_of_lt_of_le (by decide : Power.lowest < .sum) hs
  have hstatement := Derives.expression (.expr hx (.inl hlow)) (by simp) (List.forall_mem_nil _)
  have hprogram := Derives.statements hstatement .noStatements (.inr (by simp))
  rw [List.append_nil, List.append_nil] at hprogram
  have hlevels : max (m + 1) 0 ≤ 256 := by omega
  obtain ⟨hnone, hread⟩ := (parse_accepts (sumSource n) ⟨[.expression x]⟩).2
    ⟨_, hlevels, hprogram⟩
  refine ⟨hnone, fun hagain => ?_⟩
  have hle := level_le_of_parse_toSource (wellFormed_of_accepted hnone) hagain (.expression x)
    (by rw [hread]; exact List.mem_cons_self)
  rw [Statement.level] at hle
  omega

/-- So not everything that is accepted is read back from its source text: a sum of 257 names is not. -/
theorem accepted_roundTrip_fails :
    ¬ ∀ source, (parse source).diagnostics = [] →
      (parse (parse source).program.toSource).diagnostics = [] ∧
        (parse (parse source).program.toSource).program.alike (parse source).program = true ∧
        (parse (parse source).program.toSource).program.toSource =
          (parse source).program.toSource := by
  intro h
  obtain ⟨haccepted, hrejected⟩ := parse_sumSource (n := 256) le_rfl
  exact hrejected (h _ haccepted).1

end MonkeySyntax
