import MonkeySyntax.Proofs.Grammar.Derivation
import MonkeySyntax.Tree.Alike

/-! # Derivations elsewhere in a source

The grammar looks at the kind and the text of a token only, so tokens that have been moved to another
place are derived as a tree that is alike.

* `Token.Moves f` — the function changes nothing but the place of a token.
* **`Derives.copy`** — moved tokens are derived as before, with as many levels. -/

namespace MonkeySyntax

/-- The function **moves tokens** to other places. -/
def Token.Moves (f : Token → Token) : Prop :=
  ∀ t, (f t).kind = t.kind ∧ (f t).text = t.text

variable {f : Token → Token}

theorem Token.Moves.alike (hf : Token.Moves f) (t : Token) : (f t).alike t = true :=
  Token.alike_iff.2 (hf t)

theorem Token.Moves.ofToken (hf : Token.Moves f) (t : Token) :
    (Identifier.ofToken (f t)).alike (Identifier.ofToken t) = true := by
  simp [Identifier.alike, hf.alike t, (hf t).2]

/-- The tokens form a phrase that is alike. -/
def Phrase.Copied : Phrase → List Token → Nat → Prop
  | .expr bp e, ts, n => ∃ x, x.alike e = true ∧ Derives (.expr bp x) ts n
  | .part e s, ts, n => ∃ x, x.alike e = true ∧ Derives (.part x s) ts n
  | .arguments xs, ts, n => ∃ ys, Expr.allAlike ys xs = true ∧ Derives (.arguments ys) ts n
  | .furtherArguments xs, ts, n =>
    ∃ ys, Expr.allAlike ys xs = true ∧ Derives (.furtherArguments ys) ts n
  | .parameters is, ts, n => ∃ js, Identifier.allAlike js is = true ∧ Derives (.parameters js) ts n
  | .furtherParameters is, ts, n =>
    ∃ js, Identifier.allAlike js is = true ∧ Derives (.furtherParameters js) ts n
  | .block b, ts, n => ∃ c, c.alike b = true ∧ Derives (.block c) ts n
  | .alternative b, ts, n => ∃ c, Block.alike? c b = true ∧ Derives (.alternative c) ts n
  | .statement s, ts, n => ∃ r, r.alike s = true ∧ Derives (.statement r) ts n
  | .statements ss, ts, n => ∃ rs, Statement.allAlike rs ss = true ∧ Derives (.statements rs) ts n

/-- Semicolons that have been moved are semicolons. -/
theorem Token.Moves.semicolons (hf : Token.Moves f) {us : List Token}
    (hus : ∀ u ∈ us, u.kind = .semicolon) : ∀ u ∈ us.map f, u.kind = .semicolon := by
  intro u hu
  obtain ⟨v, hv, rfl⟩ := List.mem_map.1 hu
  rw [(hf v).1, hus v hv]

/-- Statements that have been moved are separated as before. -/
theorem Separated.moved (hf : Token.Moves f) {ts us : List Token} (h : Separated ts us) :
    Separated (ts.map f) (us.map f) := by
  refine h.imp (fun hlast => ?_) fun hfirst u hu => ?_
  · rw [List.getLast?_map, Option.map_map, ← hlast]
    congr 1
    exact funext fun t => (hf t).1
  · rw [List.head?_map, Option.mem_def, Option.map_eq_some_iff] at hu
    obtain ⟨v, hv, rfl⟩ := hu
    rw [(hf v).1]
    exact hfirst v hv

/-- **Moved tokens are derived as before.** -/
theorem Derives.copy {phrase : Phrase} {ts : List Token} {n : Nat} (h : Derives phrase ts n)
    (hf : Token.Moves f) : phrase.Copied (ts.map f) n := by
  have hkind {t : Token} {k : Kind} (ht : t.kind = k) : (f t).kind = k := (hf t).1.trans ht
  induction h with
  | expr _ hs ih =>
    obtain ⟨x, hx, hts⟩ := ih
    exact ⟨x, hx, .expr hts hs⟩
  | @identifier t ht =>
    exact ⟨_, by simpa [Expr.alike] using hf.ofToken t, .identifier (hkind ht)⟩
  | @integer t value ht hvalue =>
    exact ⟨.integer (f t) value, by simp [Expr.alike, hf.alike t],
      .integer (hkind ht) (by rw [(hf t).2]; exact hvalue)⟩
  | @boolean t ht =>
    exact ⟨_, by simp [Expr.alike, hf.alike t, (hf t).1], .boolean (ht.imp hkind hkind)⟩
  | grouping ho _ hc ih =>
    obtain ⟨x, hx, hts⟩ := ih
    rw [List.map_cons, List.map_append]
    exact ⟨x, hx, .grouping (hkind ho) hts (hkind hc)⟩
  | @conditional i o c e a b ts as bs k m n hi ho _ hc _ _ ihe iha ihb =>
    obtain ⟨x, hx, hts⟩ := ihe
    obtain ⟨d, hd, has⟩ := iha
    obtain ⟨g, hg, hbs⟩ := ihb
    rw [List.map_cons, List.map_cons, List.map_append, List.map_cons, List.map_append]
    exact ⟨_, by simp [Expr.alike, Expr.alike?, hf.alike i, hx, hd, hg],
      .conditional (hkind hi) (hkind ho) hts (hkind hc) has hbs⟩
  | @function t o c is b ts bs n ht ho _ hc _ ihis ihb =>
    obtain ⟨js, hjs, hts⟩ := ihis
    obtain ⟨d, hd, hbs⟩ := ihb
    rw [List.map_cons, List.map_cons, List.map_append, List.map_cons]
    exact ⟨_, by simp [Expr.alike, hf.alike t, hjs, hd],
      .function (hkind ht) (hkind ho) hts (hkind hc) hbs⟩
  | @prefixOp o e ts n ho _ ih =>
    obtain ⟨x, hx, hts⟩ := ih
    exact ⟨_, by simp [Expr.alike, Expr.alike?, hf.alike o, (hf o).2, hx],
      .prefixOp (ho.imp hkind hkind) hts⟩
  | @infixOp o bp l r s ls rs m n _ ho hs _ ihl ihr =>
    obtain ⟨x, hx, hls⟩ := ihl
    obtain ⟨y, hy, hrs⟩ := ihr
    rw [List.map_append, List.map_cons]
    exact ⟨_, by simp [Expr.alike, Expr.alike?, hf.alike o, (hf o).2, hx, hy],
      .infixOp hls (by rw [(hf o).1]; exact ho) hs hrs⟩
  | @call o c g xs fs ts m n _ ho _ hc ihg ihxs =>
    obtain ⟨y, hy, hfs⟩ := ihg
    obtain ⟨ys, hys, hts⟩ := ihxs
    rw [List.map_append, List.map_cons, List.map_append]
    exact ⟨_, by simp [Expr.alike, hf.alike o, hy, hys], .call hfs (hkind ho) hts (hkind hc)⟩
  | noArguments => exact ⟨[], rfl, .noArguments⟩
  | arguments _ _ ihx ihxs =>
    obtain ⟨y, hy, hts⟩ := ihx
    obtain ⟨ys, hys, hus⟩ := ihxs
    rw [List.map_append]
    exact ⟨y :: ys, by simp [Expr.allAlike, hy, hys], .arguments hts hus⟩
  | lastArgument => exact ⟨[], rfl, .lastArgument⟩
  | furtherArgument hc _ _ ihx ihxs =>
    obtain ⟨y, hy, hts⟩ := ihx
    obtain ⟨ys, hys, hus⟩ := ihxs
    rw [List.map_cons, List.map_append]
    exact ⟨y :: ys, by simp [Expr.allAlike, hy, hys], .furtherArgument (hkind hc) hts hus⟩
  | noParameters => exact ⟨[], rfl, .noParameters⟩
  | @parameters t is ts ht _ ih =>
    obtain ⟨js, hjs, hts⟩ := ih
    exact ⟨_, by simp [Identifier.allAlike, hf.ofToken t, hjs], .parameters (hkind ht) hts⟩
  | lastParameter => exact ⟨[], rfl, .lastParameter⟩
  | @furtherParameter c t is ts hc ht _ ih =>
    obtain ⟨js, hjs, hts⟩ := ih
    exact ⟨_, by simp [Identifier.allAlike, hf.ofToken t, hjs],
      .furtherParameter (hkind hc) (hkind ht) hts⟩
  | @block o c ss ts n ho _ hc ih =>
    obtain ⟨rs, hrs, hts⟩ := ih
    rw [List.map_cons, List.map_append]
    exact ⟨_, by simp [Block.alike, hf.alike o, hrs], .block (hkind ho) hts (hkind hc)⟩
  | noAlternative => exact ⟨none, rfl, .noAlternative⟩
  | alternative he _ ih =>
    obtain ⟨c, hc, hts⟩ := ih
    exact ⟨some c, hc, .alternative (hkind he) hts⟩
  | @binding l i a e ts us n hl hi ha _ hus ih =>
    obtain ⟨x, hx, hts⟩ := ih
    rw [List.map_cons, List.map_cons, List.map_cons, List.map_append]
    exact ⟨_, by simp [Statement.alike, Expr.alike?, hf.alike l, hf.ofToken i, hx],
      .binding (hkind hl) (hkind hi) (hkind ha) hts (hf.semicolons hus)⟩
  | @returning r e ts us n hr _ hus ih =>
    obtain ⟨x, hx, hts⟩ := ih
    rw [List.map_cons, List.map_append]
    exact ⟨_, by simp [Statement.alike, Expr.alike?, hf.alike r, hx],
      .returning (hkind hr) hts (hf.semicolons hus)⟩
  | expression _ hlength hus ih =>
    obtain ⟨x, hx, hts⟩ := ih
    rw [List.map_append]
    exact ⟨.expression x, by simpa [Statement.alike] using hx,
      .expression hts (by rwa [List.length_map]) (hf.semicolons hus)⟩
  | noStatements => exact ⟨[], rfl, .noStatements⟩
  | statements _ _ hseparated ihs ihss =>
    obtain ⟨r, hr, hts⟩ := ihs
    obtain ⟨rs, hrs, hus⟩ := ihss
    rw [List.map_append]
    exact ⟨r :: rs, by simp [Statement.allAlike, hr, hrs], .statements hts hus (hseparated.moved hf)⟩

end MonkeySyntax
