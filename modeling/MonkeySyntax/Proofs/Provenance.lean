import MonkeySyntax.Proofs.Parsing.GatheringSource

/-! # Where the tokens of a program come from

The tokens that a program keeps are tokens of its source: none is made up, none is used twice and none
changes places, whatever is wrong with the source. Where nothing is wrong none is lost either, but for
those that only hold other tokens apart.

* `Kind.isKept` — the kinds whose tokens say something by themselves.
* `Item.Of.isKept` — every item keeps such a token or is the parenthesis of a call.
* **`Parser.Gathers.sublist`** — the tokens of the items on any way, by induction on its steps;
  `Parser.Gathers.isKept` says which ones they are.
* **`Derives.mem_tokens`** — of the tokens of a phrase those are found in its tree that say something,
  by induction on its derivation.
* **`parseAs_preserves_tokens`** — both, for a source. -/

namespace MonkeySyntax

open Parsing

/-- **The kinds whose tokens say something by themselves**: names, numbers, operators, keywords other
than `else`, and the braces that open a block. -/
def Kind.isKept : Kind → Bool
  | .identifier | .integer | .plus | .minus | .star | .slash | .bang | .less | .greater | .equals
  | .notEquals | .kwFn | .kwLet | .kwTrue | .kwFalse | .kwIf | .kwReturn | .openBrace => true
  | _ => false

/-- Every item keeps such a token, or is the parenthesis of a call. -/
theorem Item.Of.isKept {t : Token} {item : Item} (h : item.Of t) :
    t.kind.isKept = true ∨ t.kind = .openParen ∧ item.call? = some t := by
  cases h with
  | call h => exact .inr ⟨h, rfl⟩
  | truth h =>
    rcases h with h | h
    · exact .inl (by rw [h]; rfl)
    · exact .inl (by rw [h]; rfl)
  | prefixSign h =>
    rcases h with h | h
    · exact .inl (by rw [h]; rfl)
    · exact .inl (by rw [h]; rfl)
  | infixSign h =>
    left
    generalize t.kind = k at h
    cases k <;> simp_all [Kind.binaryPower?, Kind.isKept]
  | _ h => exact .inl (by rw [h]; rfl)

/-! ### Nothing is made up -/

namespace Parser

variable {p q : Parser} {items : List Item}

/-- The tokens ahead are the current one and those behind it. -/
theorem take_append_tail (p : Parser) : p.rest = p.rest.take 1 ++ p.rest.tail := by
  rw [← List.drop_one, List.take_append_drop]

/-- **The tokens of the items lie on the way**, in the order of the items. -/
theorem Gathers.sublist (h : Gathers p items q) (hp : p.Standard) :
    ∃ ts, p.rest = ts ++ q.rest.tail ∧ (items.filterMap Item.token?).Sublist ts := by
  induction h with
  | stay p => exact ⟨_, take_append_tail p, List.nil_sublist _⟩
  | @take p item hitem =>
    have hrest := rest_eq_cons hp hitem.kind_ne_eof
    rw [rest_advance] at hrest
    refine ⟨[p.current], hrest, ?_⟩
    rw [List.filterMap_cons_some hitem.token?_eq]
    exact List.Sublist.refl _
  | @fault p => exact ⟨_, take_append_tail p, List.nil_sublist _⟩
  | missing _ _ ih =>
    obtain ⟨ts, hrest, htokens⟩ := ih hp
    have habsent : [Item.absent].filterMap Item.token? = [] := rfl
    refine ⟨ts, hrest, ?_⟩
    rwa [List.filterMap_append, habsent, List.append_nil]
  | next hway _ ih ih' =>
    obtain ⟨ts, hrest, htokens⟩ := ih hp
    obtain ⟨us, hrest', htokens'⟩ := ih' (hway.standard hp).advance
    rw [rest_advance] at hrest'
    refine ⟨ts ++ us, by rw [hrest, hrest', List.append_assoc], ?_⟩
    rw [List.filterMap_append]
    exact htokens.append htokens'
  | drop _ hkept ih =>
    obtain ⟨ts, hrest, htokens⟩ := ih hp
    exact ⟨ts, hrest, (hkept.filterMap _).trans htokens⟩
  | clear _ ih => exact ih hp
  | nested _ _ ih => exact ih (hp.withDepth _)

/-- The tokens of the items say something by themselves or are the parentheses of calls. -/
theorem Gathers.isKept (h : Gathers p items q) :
    ∀ t ∈ items.filterMap Item.token?,
      t.kind.isKept = true ∨ t.kind = .openParen ∧ t ∈ items.filterMap Item.call? := by
  intro t ht
  obtain ⟨item, hitem, htoken⟩ := List.mem_filterMap.1 ht
  rcases h.of_mem item hitem with rfl | ⟨i, hof⟩
  · exact absurd htoken (by simp [Item.token?])
  · obtain rfl : p.tokenAt i = t := Option.some.inj (hof.token?_eq.symm.trans htoken)
    rcases hof.isKept with hkept | ⟨hparen, hcall⟩
    · exact .inl hkept
    · exact .inr ⟨hparen, List.mem_filterMap.2 ⟨item, hitem, hcall⟩⟩

end Parser

/-! ### Nothing is lost -/

/-- The items of a phrase. -/
def Phrase.items : Phrase → List Item
  | .expr _ e | .part e _ => e.items
  | .arguments xs | .furtherArguments xs => Expr.allItems xs
  | .parameters is | .furtherParameters is => is.map .name
  | .block b => b.items
  | .alternative b => Block.alternativeItems b
  | .statement s => s.items
  | .statements ss => Statement.allItems ss

/-- **What says something is found in the tree** of a phrase. -/
theorem Derives.mem_tokens {phrase : Phrase} {ts : List Token} {n : Nat} (h : Derives phrase ts n) :
    ∀ t ∈ ts, t.kind.isKept = true → t ∈ phrase.items.filterMap Item.token? := by
  induction h with
  | expr _ _ ih => exact ih
  | identifier | integer | boolean => simp [Phrase.items, Expr.items, Item.token?]
  | prefixOp | infixOp => simp_all [Phrase.items, Expr.items, Expr.items?, Item.token?, or_imp]
  | grouping | conditional | function | call =>
    -- the parentheses around an expression or behind a keyword are not kept, that of a call need not be
    simp_all [Phrase.items, Expr.items, Expr.items?, Item.token?, Kind.isKept, or_imp]
  | noArguments | arguments | lastArgument | furtherArgument =>
    simp_all [Phrase.items, Expr.allItems, Kind.isKept, or_imp]
  | noParameters | parameters | lastParameter | furtherParameter =>
    simp_all [Phrase.items, Item.token?, Kind.isKept, or_imp]
  | block | noAlternative | alternative =>
    simp_all [Phrase.items, Block.items, Block.alternativeItems, Item.token?, Kind.isKept, or_imp]
  | binding | returning | expression =>
    -- nor are the semicolons behind a statement
    simp_all [Phrase.items, Statement.items, Expr.items?, Item.token?, Kind.isKept, or_imp]
  | noStatements | statements => simp_all [Phrase.items, Statement.allItems, or_imp]

/-- **A program keeps the tokens of its source in their order.** Whatever is wrong with a source, the
tokens of its program are some of its own, each used once and all of them in their order. Where
nothing is wrong they are those that say something by themselves, together with the opening
parentheses of the calls. -/
theorem parseAs_preserves_tokens (file source : String)
    (hfits : byteLength source.toList < offsetBound) :
    (parseAs file source).program.tokens.Sublist (tokenize source file) ∧
      (parseAs file source).program.tokens.Pairwise (·.start < ·.start) ∧
      ((parseAs file source).diagnostics = [] →
        (parseAs file source).program.tokens = (tokenize source file).filter fun t =>
          t.kind.isKept ∨ t.kind = .openParen ∧ t ∈ (parseAs file source).program.calls) := by
  have hsorted := pairwise_start_tokenize file hfits
  obtain ⟨ts, t, q, hts, ht, hp, -, hway, -⟩ := exists_gathers file source
  have hsublist : (parseAs file source).program.tokens.Sublist (tokenize source file) := by
    obtain ⟨us, hus, htokens⟩ := hway.sublist hp
    rw [Parser.rest_ofTokens, ← hts] at hus
    rw [hus]
    exact htokens.trans (List.sublist_append_left _ _)
  refine ⟨hsublist, hsorted.sublist hsublist, fun hnone => ?_⟩
  obtain ⟨n, -, hderives⟩ := (parseAs_accepts file source _).1 ⟨hnone, rfl⟩
  -- both are in order, so it is enough that they have the same tokens
  apply eq_of_pairwise_start (hsorted.sublist hsublist) (hsorted.sublist List.filter_sublist)
  intro u
  rw [List.mem_filter, decide_eq_true_iff]
  constructor
  · exact fun hkept => ⟨hsublist.subset hkept, hway.isKept u hkept⟩
  · rintro ⟨hmem, hkept | ⟨-, hcall⟩⟩
    · rw [hts, List.dropLast_concat] at hderives
      rw [hts] at hmem
      rcases List.mem_append.1 hmem with hmem | hmem
      · exact hderives.mem_tokens u hmem hkept
      · -- the end of the source says nothing
        rw [List.mem_singleton.1 hmem, ht] at hkept
        exact absurd hkept (by decide)
    · exact Program.mem_tokens_of_mem_calls hcall

/-- Of a call and an operand in parentheses only the parenthesis of the call is kept. -/
theorem parseAs_preserves_tokens_call :
    (parseAs defaultFileName "-f(a) + (b);").diagnostics = [] ∧
      (parseAs defaultFileName "-f(a) + (b);").program.tokens.map (·.text) =
        ["-", "f", "(", "a", "+", "b"] ∧
      (parseAs defaultFileName "-f(a) + (b);").program.tokens =
        (tokenize "-f(a) + (b);" defaultFileName).filter fun t => t.kind.isKept ∨
          t.kind = .openParen ∧ t ∈ (parseAs defaultFileName "-f(a) + (b);").program.calls := by
  have hnone : (parseAs defaultFileName "-f(a) + (b);").diagnostics = [] := by decide +kernel
  obtain ⟨-, -, hexact⟩ := parseAs_preserves_tokens defaultFileName "-f(a) + (b);" (by decide +kernel)
  exact ⟨hnone, by decide +kernel, hexact hnone⟩

end MonkeySyntax
