import MonkeySyntax.Proofs.Tree.AlikeText
import MonkeySyntax.Proofs.Tree.Opening
import MonkeySyntax.Proofs.Tree.Rendering

/-! # Canonical texts are read in one way only

Two trees whose nodes are sound have one canonical text only if they are alike, whatever is missing in
them and however deep they are. No reader is needed for this: the two texts are compared from the left,
together with anything that may stand behind them.

* **`Expr.Unique`**, `Block.Unique`, `Statement.Unique` — the statement above for one tree and any other
  one; `Expr.PartUnique` — the same for trees that are not calls.
* `unique_prefixOp`, `unique_infixOp`, … — one lemma for each kind of node.
* `Expr.applied`, **`unique_applied`** — a call is told as a part and the lists of arguments behind it,
  since its text begins with that of its callee.
* **`Expr.unique`**, `Block.unique`, `Statement.unique` — all sound trees. -/

namespace MonkeySyntax

/-! ### What is to be shown -/

/-- **The text of an expression is that of no other one**, with anything behind it. -/
def Expr.Unique (x : Expr) : Prop :=
  ∀ (y : Expr) (rest rest' : List Char), (∀ item ∈ y.items, item.Sound) → Closes rest → Closes rest' →
    x.display.toList ++ rest = y.display.toList ++ rest' → x.alike y = true ∧ rest = rest'

/-- The expression is **not a call**. -/
def Expr.IsPart (x : Expr) : Prop :=
  ∀ t f xs, x ≠ .call t f xs

/-- **The text of a part is that of no other one**, also where it is called. Only parts that begin with
the same kind of token need to be compared. -/
def Expr.PartUnique (x : Expr) : Prop :=
  ∀ (y : Expr) (rest rest' : List Char), (∀ item ∈ y.items, item.Sound) → y.IsPart →
    x.firstKind = y.firstKind → ClosesPart rest → ClosesPart rest' →
    x.display.toList ++ rest = y.display.toList ++ rest' → x.alike y = true ∧ rest = rest'

/-- The text of a child that may be missing. -/
def Expr.Unique? (x : Option Expr) : Prop :=
  ∀ (y : Option Expr) (rest rest' : List Char), (∀ item ∈ Expr.items? y, item.Sound) → Closes rest →
    Closes rest' → (Expr.display? x).toList ++ rest = (Expr.display? y).toList ++ rest' →
    Expr.alike? x y = true ∧ rest = rest'

/-- **The text of a block.** -/
def Block.Unique (a : Block) : Prop :=
  ∀ (b : Block) (rest rest' : List Char), (∀ item ∈ b.items, item.Sound) →
    a.braced.toList ++ rest = b.braced.toList ++ rest' → a.alike b = true ∧ rest = rest'

/-- The text of a second branch that may be left out. -/
def Block.AlternativeUnique (a : Option Block) : Prop :=
  ∀ (b : Option Block) (rest rest' : List Char), (∀ item ∈ Block.alternativeItems b, item.Sound) →
    ClosesPart rest → ClosesPart rest' →
    (Block.otherwise? a).toList ++ rest = (Block.otherwise? b).toList ++ rest' →
    Block.alike? a b = true ∧ rest = rest'

/-- **The text of a statement.** -/
def Statement.Unique (s : Statement) : Prop :=
  ∀ (r : Statement) (rest rest' : List Char), (∀ item ∈ r.items, item.Sound) →
    s.terminated.toList ++ rest = r.terminated.toList ++ rest' → s.alike r = true ∧ rest = rest'

variable {rest rest' : List Char}

/-! ### Names, numbers and truth values -/

/-- **The text of a name** is that of no other one. -/
theorem Identifier.alike_append {i j : Identifier} (hi : (Item.name i).Sound) (hj : (Item.name j).Sound)
    (hrest : Breaks rest) (hrest' : Breaks rest') (h : i.name.toList ++ rest = j.name.toList ++ rest') :
    i.alike j = true ∧ rest = rest' := by
  have hvalid : i.WellFormed := hi.1
  have hvalid' : j.WellFormed := hj.1
  rw [← hvalid.text_eq, ← hvalid'.text_eq] at h
  obtain ⟨halike, heq⟩ := Token.Spelt.alike_append (hi.2 i.token rfl) (hj.2 j.token rfl)
    (fun c hc => by rw [hvalid.kind_eq]; exact (hrest c hc).1)
    (fun c hc => by rw [hvalid'.kind_eq]; exact (hrest' c hc).1) h
  refine ⟨?_, heq⟩
  rw [Identifier.alike, halike, ← hvalid.text_eq, ← hvalid'.text_eq, (Token.alike_iff.1 halike).2]
  simp

theorem unique_identifier {i : Identifier} (h : (Item.name i).Sound) :
    (Expr.identifier i).PartUnique := by
  intro y rest rest' hy hpart hfirst hrest hrest' htext
  cases y with
  | identifier j =>
    obtain ⟨halike, heq⟩ := Identifier.alike_append h (hy _ (List.mem_singleton.2 rfl)) hrest.breaks
      hrest'.breaks htext
    exact ⟨by rwa [Expr.alike], heq⟩
  | call t f xs => exact absurd rfl (hpart t f xs)
  | _ => exact absurd hfirst (by simp [Expr.firstKind, eq_ite_iff])

theorem unique_integer {t : Token} {value : Int} (h : (Item.number t value).Sound) :
    (Expr.integer t value).PartUnique := by
  intro y rest rest' hy hpart hfirst hrest hrest' htext
  cases y with
  | integer u other =>
    have hu := hy _ (List.mem_singleton.2 rfl)
    obtain ⟨hkind, -, -, hvalue, -⟩ := h.1
    obtain ⟨hkind', -, -, hvalue', -⟩ := hu.1
    obtain ⟨halike, heq⟩ := Token.Spelt.alike_append (h.2 t rfl) (hu.2 u rfl)
      (fun c hc => by rw [hkind]; exact (hrest.breaks c hc).2)
      (fun c hc => by rw [hkind']; exact (hrest'.breaks c hc).2) htext
    refine ⟨?_, heq⟩
    rw [Expr.alike, halike, hvalue, hvalue', (Token.alike_iff.1 halike).2]
    simp
  | call t f xs => exact absurd rfl (hpart t f xs)
  | _ => exact absurd hfirst (by simp [Expr.firstKind, eq_ite_iff])

theorem unique_boolean {t : Token} {value : Bool} (h : (Item.truth t value).Sound) :
    (Expr.boolean t value).PartUnique := by
  intro y rest rest' hy hpart hfirst hrest hrest' htext
  cases y with
  | boolean u other =>
    have hu := hy _ (List.mem_singleton.2 rfl)
    have hjoins {v : Token} {b : Bool} (hv : (Item.truth v b).Valid) {rest : List Char}
        (hrest : ClosesPart rest) : ∀ c ∈ rest.head?, v.kind.joins c = false := by
      intro c hc
      rcases hv.1 with hkind | hkind <;> (rw [hkind]; exact (hrest.breaks c hc).1)
    obtain ⟨halike, heq⟩ := Token.Spelt.alike_append (h.2 t rfl) (hu.2 u rfl) (hjoins h.1 hrest)
      (hjoins hu.1 hrest') htext
    have hvalue : value = other :=
      Bool.eq_iff_iff.2 (by rw [h.1.2, hu.1.2, (Token.alike_iff.1 halike).1])
    refine ⟨?_, heq⟩
    rw [Expr.alike, halike, hvalue]
    simp
  | call t f xs => exact absurd rfl (hpart t f xs)
  | _ => exact absurd hfirst (by simp [Expr.firstKind, ite_eq_iff])

/-! ### Operators -/

/-- An operator before its operand is one character, which begins no operand. -/
theorem exists_prefixSign {t : Token} {o : String} (h : (Item.prefixSign t o).Valid) :
    ∃ c, o.toList = [c] ∧ ¬ Begins c := by
  have hall : ∀ p ∈ prefixSigns, p.2 = "!" ∨ p.2 = "-" := by decide
  rcases hall _ h.2 with ho | ho
  · exact ⟨'!', by rw [show o = "!" from ho]; rfl, by decide⟩
  · exact ⟨'-', by rw [show o = "-" from ho]; rfl, by decide⟩

/-- An operator between its operands begins with no letter, and a blank does not join it. -/
theorem exists_infixSign {t : Token} {o : String} (h : (Item.infixSign t o).Valid) :
    t.kind.joins ' ' = false ∧ ∃ c cs, o.toList = c :: cs ∧ isWordChar c = false := by
  have hall : ∀ p ∈ infixSigns, p.1.joins ' ' = false ∧ p.2.toList ≠ [] ∧
      p.2.toList.head?.any isWordChar = false := by decide
  obtain ⟨hjoins, hne, hhead⟩ := hall _ h.2
  obtain ⟨c, cs, hcs⟩ := List.exists_cons_of_ne_nil hne
  rw [hcs] at hhead
  exact ⟨hjoins, c, cs, hcs, hhead⟩

/-- What is missing is told apart from what is there by the character behind it. -/
theorem unique_none : Expr.Unique? none := by
  intro y rest rest' hy hrest _ htext
  cases y with
  | none => exact ⟨rfl, htext⟩
  | some y =>
    obtain ⟨c, cs, hcs, hc⟩ := y.exists_head hy
    rw [Expr.display?, Expr.display?, hcs] at htext
    exact absurd hc (hrest.not_begins c (by rw [show rest = _ from htext]; rfl))

theorem unique_some {x : Expr} (hx : x.Unique) (hsound : ∀ item ∈ x.items, item.Sound) :
    Expr.Unique? (some x) := by
  intro y rest rest' hy hrest hrest' htext
  cases y with
  | none =>
    obtain ⟨c, cs, hcs, hc⟩ := x.exists_head hsound
    rw [Expr.display?, Expr.display?, hcs] at htext
    exact absurd hc (hrest'.not_begins c (by rw [← show _ = rest' from htext]; rfl))
  | some y => exact hx y rest rest' hy hrest hrest' htext

theorem unique_prefixOp {t : Token} {o : String} {x : Option Expr} (h : (Item.prefixSign t o).Sound)
    (hx : Expr.Unique? x) : (Expr.prefixOp t o x).PartUnique := by
  intro y rest rest' hy hpart hfirst hrest hrest' htext
  obtain ⟨c, hc, hbegins⟩ := exists_prefixSign h.1
  cases y with
  | prefixOp u p z =>
    obtain ⟨hu, hz⟩ := List.forall_mem_cons.1 hy
    obtain ⟨d, hd, -⟩ := exists_prefixSign hu.1
    simp only [Expr.display, String.toList_append, hc, hd, List.append_assoc] at htext
    obtain ⟨rfl, hoperand⟩ : c = d ∧ (Expr.display? x).toList ++ ')' :: rest =
        (Expr.display? z).toList ++ ')' :: rest' := by simpa using htext
    obtain ⟨halike, hbehind⟩ := hx z _ _ hz (.sign (by decide)) (.sign (by decide)) hoperand
    have hsign : o = p := String.toList_inj.1 (hc.trans hd.symm)
    have htoken := (h.2 t rfl).alike (hu.2 u rfl) (by rw [← h.1.1, ← hu.1.1, hsign])
    refine ⟨?_, (List.cons.inj hbehind).2⟩
    rw [Expr.alike, htoken, hsign, halike]
    simp
  | infixOp u p l z =>
    -- no operand begins with the sign
    obtain ⟨d, ds, hd, hbegins'⟩ := l.exists_head fun item hitem => hy item (List.mem_append_left _ hitem)
    simp only [Expr.display, String.toList_append, hc, hd, List.append_assoc] at htext
    have hcd : c = d := (by simpa using htext : c = d ∧ _).1
    exact absurd (hcd ▸ hbegins') hbegins
  | call t f xs => exact absurd rfl (hpart t f xs)
  | _ => exact absurd hfirst (by simp [Expr.firstKind, eq_ite_iff])

theorem unique_infixOp {t : Token} {o : String} {l : Expr} {x : Option Expr}
    (h : (Item.infixSign t o).Sound) (hsound : ∀ item ∈ l.items, item.Sound) (hl : l.Unique)
    (hx : Expr.Unique? x) : (Expr.infixOp t o l x).PartUnique := by
  intro y rest rest' hy hpart hfirst hrest hrest' htext
  cases y with
  | infixOp u p m z =>
    obtain ⟨hm, hy⟩ := List.forall_mem_append.1 hy
    obtain ⟨hu, hz⟩ := List.forall_mem_cons.1 hy
    obtain ⟨hjoins, c, cs, hc, hword⟩ := exists_infixSign h.1
    obtain ⟨hjoins', d, ds, hd, hword'⟩ := exists_infixSign hu.1
    have hleft : l.display.toList ++ ' ' :: (o.toList ++ ' ' :: ((Expr.display? x).toList ++ ')' :: rest)) =
        m.display.toList ++ ' ' :: (p.toList ++ ' ' :: ((Expr.display? z).toList ++ ')' :: rest')) := by
      simpa [Expr.display] using htext
    -- the left operand is a whole expression, so what closes it has to be the sign
    obtain ⟨hlm, hsign⟩ := hl m _ _ hm (by rw [hc]; exact .operator hword)
      (by rw [hd]; exact .operator hword') hleft
    -- the sign ends at the blank behind it
    have ho : o = t.text := h.1.1
    have hp : p = u.text := hu.1.1
    rw [ho, hp] at hsign
    obtain ⟨htoken, hright⟩ := (h.2 t rfl).alike_append (hu.2 u rfl) (by simpa using hjoins)
      (by simpa using hjoins') (List.cons.inj hsign).2
    obtain ⟨halike, hbehind⟩ := hx z _ _ hz (.sign (by decide)) (.sign (by decide))
      (List.cons.inj hright).2
    refine ⟨?_, (List.cons.inj hbehind).2⟩
    rw [Expr.alike, htoken, hlm, halike, ho, hp, (Token.alike_iff.1 htoken).2]
    simp
  | prefixOp u p z =>
    -- no operand begins with the sign
    obtain ⟨hu, -⟩ := List.forall_mem_cons.1 hy
    obtain ⟨c, hc, hbegins⟩ := exists_prefixSign hu.1
    obtain ⟨d, ds, hd, hbegins'⟩ := l.exists_head hsound
    simp only [Expr.display, String.toList_append, hc, hd, List.append_assoc] at htext
    have hdc : d = c := (by simpa using htext : d = c ∧ _).1
    exact absurd (hdc ▸ hbegins') hbegins
  | call t f xs => exact absurd rfl (hpart t f xs)
  | _ => exact absurd hfirst (by simp [Expr.firstKind, eq_ite_iff])

/-! ### Lists between parentheses -/

section Separated

variable {α : Type} {f : α → String} {P : α → Prop} {R : α → α → Prop} {xs ys : List α}

/-- Either a comma or the parenthesis closes the element before it. -/
theorem closes_further (zs : List α) (rest : List Char) :
    Closes ((String.join (zs.map (", " ++ f ·))).toList ++ ')' :: rest) := by
  cases zs with
  | nil => exact .sign (by decide)
  | cons z zs =>
    rw [List.map_cons, String.join_cons, String.toList_append, String.toList_append]
    exact .sign (by decide)

/-- Elements behind a first one, each with a comma before it. -/
theorem forall₂_of_further
    (hxs : ∀ x ∈ xs, ∀ y rest rest', P y → Closes rest → Closes rest' →
      (f x).toList ++ rest = (f y).toList ++ rest' → R x y ∧ rest = rest')
    (hys : ∀ y ∈ ys, P y)
    (h : (String.join (xs.map (", " ++ f ·))).toList ++ ')' :: rest =
      (String.join (ys.map (", " ++ f ·))).toList ++ ')' :: rest') :
    List.Forall₂ R xs ys ∧ rest = rest' := by
  induction xs generalizing ys with
  | nil =>
    cases ys with
    | nil => exact ⟨.nil, by simpa using h⟩
    | cons y ys => exact absurd h (by simp)
  | cons x xs ih =>
    cases ys with
    | nil => exact absurd h (by simp)
    | cons y ys =>
      obtain ⟨hx, hxs⟩ := List.forall_mem_cons.1 hxs
      obtain ⟨hy, hys⟩ := List.forall_mem_cons.1 hys
      have hfirst : (f x).toList ++ ((String.join (xs.map (", " ++ f ·))).toList ++ ')' :: rest) =
          (f y).toList ++ ((String.join (ys.map (", " ++ f ·))).toList ++ ')' :: rest') := by
        simpa using h
      obtain ⟨hxy, hothers⟩ := hx y _ _ hy (closes_further xs rest) (closes_further ys rest') hfirst
      obtain ⟨hforall, heq⟩ := ih hxs hys hothers
      exact ⟨.cons hxy hforall, heq⟩

/-- **Elements with a comma between any two of them**, up to a closing parenthesis. -/
theorem forall₂_of_separated (hhead : ∀ x, P x → ∃ c cs, (f x).toList = c :: cs ∧ Begins c)
    (hxs : ∀ x ∈ xs, P x ∧ ∀ y rest rest', P y → Closes rest → Closes rest' →
      (f x).toList ++ rest = (f y).toList ++ rest' → R x y ∧ rest = rest')
    (hys : ∀ y ∈ ys, P y)
    (h : (", ".intercalate (xs.map f)).toList ++ ')' :: rest =
      (", ".intercalate (ys.map f)).toList ++ ')' :: rest') :
    List.Forall₂ R xs ys ∧ rest = rest' := by
  have hcons (z : α) (zs : List α) (rest : List Char) :
      (", ".intercalate ((z :: zs).map f)).toList ++ ')' :: rest =
        (f z).toList ++ ((String.join (zs.map (", " ++ f ·))).toList ++ ')' :: rest) := by
    rw [List.map_cons, intercalate_cons, List.map_map, String.toList_append, List.append_assoc]
    rfl
  -- without elements the parenthesis would be the first character of one
  have hnil {z : α} {zs : List α} {rest rest' : List Char} (hz : P z)
      (h : ')' :: rest = (", ".intercalate ((z :: zs).map f)).toList ++ ')' :: rest') : False := by
    obtain ⟨c, cs, hc, hbegins⟩ := hhead z hz
    rw [hcons, hc] at h
    obtain rfl : ')' = c := (List.cons.inj h).1
    exact absurd hbegins (by decide)
  cases xs with
  | nil =>
    cases ys with
    | nil => exact ⟨.nil, by simpa using h⟩
    | cons y ys => exact (hnil (hys y List.mem_cons_self) h).elim
  | cons x xs =>
    obtain ⟨⟨hx, hunique⟩, hxs⟩ := List.forall_mem_cons.1 hxs
    cases ys with
    | nil => exact (hnil hx h.symm).elim
    | cons y ys =>
      obtain ⟨hy, hys⟩ := List.forall_mem_cons.1 hys
      rw [hcons, hcons] at h
      obtain ⟨hxy, hothers⟩ := hunique y _ _ hy (closes_further xs rest) (closes_further ys rest') h
      obtain ⟨hforall, heq⟩ := forall₂_of_further (fun x hx => (hxs x hx).2) hys hothers
      exact ⟨.cons hxy hforall, heq⟩

end Separated

/-- **The arguments of a call** are those of no other one. -/
theorem unique_arguments {xs ys : List Expr} (hxs : ∀ x ∈ xs, (∀ item ∈ x.items, item.Sound) ∧ x.Unique)
    (hys : ∀ y ∈ ys, ∀ item ∈ y.items, item.Sound)
    (h : (", ".intercalate (Expr.displayAll xs)).toList ++ ')' :: rest =
      (", ".intercalate (Expr.displayAll ys)).toList ++ ')' :: rest') :
    Expr.allAlike xs ys = true ∧ rest = rest' := by
  rw [Expr.displayAll_eq_map, Expr.displayAll_eq_map] at h
  obtain ⟨hforall, heq⟩ := forall₂_of_separated (P := fun x : Expr => ∀ item ∈ x.items, item.Sound)
    Expr.exists_head hxs hys h
  exact ⟨Expr.allAlike_of_forall₂ hforall, heq⟩

/-- **The parameters of a function** are those of no other one. -/
theorem unique_parameters {ps qs : List Identifier} (hps : ∀ p ∈ ps, (Item.name p).Sound)
    (hqs : ∀ q ∈ qs, (Item.name q).Sound)
    (h : (", ".intercalate (ps.map (·.name))).toList ++ ')' :: rest =
      (", ".intercalate (qs.map (·.name))).toList ++ ')' :: rest') :
    Identifier.allAlike ps qs = true ∧ rest = rest' := by
  have hhead (p : Identifier) (hp : (Item.name p).Sound) : ∃ c cs, p.name.toList = c :: cs ∧ Begins c := by
    obtain ⟨c, cs, hcs, hc⟩ := Identifier.WellFormed.exists_cons hp.1
    exact ⟨c, cs, hcs, .inl hc⟩
  have hname (p : Identifier) (hp : p ∈ ps) : (Item.name p).Sound ∧ ∀ q rest rest',
      (Item.name q).Sound → Closes rest → Closes rest' →
        p.name.toList ++ rest = q.name.toList ++ rest' → p.alike q = true ∧ rest = rest' :=
    ⟨hps p hp, fun q _ _ hq hrest hrest' h => Identifier.alike_append (hps p hp) hq
      (ClosesPart.breaks (.inl hrest)) (ClosesPart.breaks (.inl hrest')) h⟩
  obtain ⟨hforall, heq⟩ := forall₂_of_separated hhead hname hqs h
  exact ⟨Identifier.allAlike_of_forall₂ hforall, heq⟩

/-! ### Blocks and statements -/

/-- **Statements with a blank behind each of them**, up to a closing brace. -/
theorem unique_statements {ss rs : List Statement}
    (hss : ∀ s ∈ ss, (∀ item ∈ s.items, item.Sound) ∧ s.Unique)
    (hrs : ∀ r ∈ rs, ∀ item ∈ r.items, item.Sound)
    (h : (String.join (Statement.spacedAll ss)).toList ++ '}' :: rest =
      (String.join (Statement.spacedAll rs)).toList ++ '}' :: rest') :
    Statement.allAlike ss rs = true ∧ rest = rest' := by
  have hcons (s : Statement) (ss : List Statement) (rest : List Char) :
      (String.join (Statement.spacedAll (s :: ss))).toList ++ '}' :: rest =
        s.terminated.toList ++ ' ' :: ((String.join (Statement.spacedAll ss)).toList ++ '}' :: rest) := by
    simp [Statement.spacedAll]
  -- the brace begins no statement
  have hnil {s : Statement} {ss : List Statement} {rest rest' : List Char}
      (hs : ∀ item ∈ s.items, item.Sound)
      (h : '}' :: rest = (String.join (Statement.spacedAll (s :: ss))).toList ++ '}' :: rest') :
      False := by
    obtain ⟨c, cs, hc, hbegins⟩ := s.exists_head hs
    rw [hcons, hc] at h
    obtain rfl : '}' = c := (List.cons.inj h).1
    exact absurd hbegins (by decide)
  induction ss generalizing rs with
  | nil =>
    cases rs with
    | nil => exact ⟨rfl, by simpa [Statement.spacedAll] using h⟩
    | cons r rs => exact (hnil (hrs r List.mem_cons_self) h).elim
  | cons s ss ih =>
    obtain ⟨⟨hs, hunique⟩, hss⟩ := List.forall_mem_cons.1 hss
    cases rs with
    | nil => exact (hnil hs h.symm).elim
    | cons r rs =>
      obtain ⟨hr, hrs⟩ := List.forall_mem_cons.1 hrs
      rw [hcons, hcons] at h
      obtain ⟨halike, hothers⟩ := hunique r _ _ hr h
      obtain ⟨hall, heq⟩ := ih hss hrs (List.cons.inj hothers).2
      exact ⟨by rw [Statement.allAlike, halike, hall, Bool.and_self], heq⟩

theorem unique_block {t : Token} {ss : List Statement} (h : (Item.brace t).Sound)
    (hss : ∀ s ∈ ss, (∀ item ∈ s.items, item.Sound) ∧ s.Unique) : (Block.mk t ss).Unique := by
  rintro ⟨u, rs⟩ rest rest' hb htext
  obtain ⟨hu, hrs⟩ := List.forall_mem_cons.1 hb
  rw [Statement.allItems_eq_flatMap, List.forall_mem_flatMap] at hrs
  have hbody : (String.join (Statement.spacedAll ss)).toList ++ '}' :: rest =
      (String.join (Statement.spacedAll rs)).toList ++ '}' :: rest' := by
    simpa [Block.braced] using htext
  obtain ⟨hall, heq⟩ := unique_statements hss hrs hbody
  exact ⟨by rw [Block.alike, Token.Is.alike h.1 hu.1, hall, Bool.and_self], heq⟩

/-- A second branch that is left out is told apart from one that is there. -/
theorem unique_noAlternative : Block.AlternativeUnique none := by
  intro b rest rest' _ hrest _ htext
  cases b with
  | none => exact ⟨rfl, htext⟩
  | some b => exact absurd (show rest = _ by simpa [Block.otherwise?] using htext) hrest.ne_else

theorem unique_alternative {a : Block} (ha : a.Unique) : Block.AlternativeUnique (some a) := by
  intro b rest rest' hb _ hrest' htext
  cases b with
  | none => exact absurd (show rest' = _ by simpa [Block.otherwise?] using htext.symm) hrest'.ne_else
  | some b => exact ha b rest rest' hb (by simpa [Block.otherwise?] using htext)

theorem unique_conditional {t : Token} {c : Option Expr} {a : Block} {e : Option Block}
    (h : (Item.choice t).Sound) (hc : Expr.Unique? c) (ha : a.Unique) (he : Block.AlternativeUnique e) :
    (Expr.conditional t c a e).PartUnique := by
  intro y rest rest' hy hpart hfirst hrest hrest' htext
  cases y with
  | conditional u d b f =>
    obtain ⟨hu, hy⟩ := List.forall_mem_cons.1 hy
    obtain ⟨hd, hy⟩ := List.forall_mem_append.1 hy
    obtain ⟨hb, hf⟩ := List.forall_mem_append.1 hy
    have ht : t.Is .kwIf "if" := h.1
    have hu : u.Is .kwIf "if" := hu.1
    have hcondition : (Expr.display? c).toList ++ ')' :: ' ' ::
          (a.braced.toList ++ ((Block.otherwise? e).toList ++ rest)) =
        (Expr.display? d).toList ++ ')' :: ' ' ::
          (b.braced.toList ++ ((Block.otherwise? f).toList ++ rest')) := by
      simpa [Expr.display, ht.2, hu.2] using htext
    obtain ⟨hcd, hblock⟩ := hc d _ _ hd (.sign (by decide)) (.sign (by decide)) hcondition
    simp only [List.cons.injEq, true_and] at hblock
    -- the blocks end at their braces, whatever stands behind them
    obtain ⟨hab, halternative⟩ := ha b _ _ hb hblock
    obtain ⟨hef, heq⟩ := he f _ _ hf hrest hrest' halternative
    exact ⟨by rw [Expr.alike, ht.alike hu, hcd, hab, hef]; rfl, heq⟩
  | call t f xs => exact absurd rfl (hpart t f xs)
  | _ => exact absurd hfirst (by simp [Expr.firstKind, eq_ite_iff])

theorem unique_function {t : Token} {ps : List Identifier} {b : Block} (h : (Item.function t).Sound)
    (hps : ∀ p ∈ ps, (Item.name p).Sound) (hb : b.Unique) : (Expr.function t ps b).PartUnique := by
  intro y rest rest' hy hpart hfirst hrest hrest' htext
  cases y with
  | function u qs d =>
    obtain ⟨hu, hy⟩ := List.forall_mem_cons.1 hy
    obtain ⟨hqs, hd⟩ := List.forall_mem_append.1 hy
    rw [List.forall_mem_map] at hqs
    have ht : t.Is .kwFn "fn" := h.1
    have hu : u.Is .kwFn "fn" := hu.1
    have hparameters : (", ".intercalate (ps.map (·.name))).toList ++ ')' :: ' ' ::
          (b.braced.toList ++ rest) =
        (", ".intercalate (qs.map (·.name))).toList ++ ')' :: ' ' :: (d.braced.toList ++ rest') := by
      simpa [Expr.display, ht.2, hu.2] using htext
    obtain ⟨hall, hbody⟩ := unique_parameters hps hqs hparameters
    obtain ⟨hbd, heq⟩ := hb d _ _ hd (List.cons.inj hbody).2
    exact ⟨by rw [Expr.alike, ht.alike hu, hall, hbd]; rfl, heq⟩
  | call t f xs => exact absurd rfl (hpart t f xs)
  | _ => exact absurd hfirst (by simp [Expr.firstKind, eq_ite_iff])

/-- Equal texts of statements begin with tokens of one kind. -/
theorem Statement.firstKind_eq {s r : Statement} (hs : ∀ item ∈ s.items, item.Sound)
    (hr : ∀ item ∈ r.items, item.Sound)
    (h : s.terminated.toList ++ rest = r.terminated.toList ++ rest') : s.firstKind = r.firstKind :=
  (s.firstToken hs).eq (r.firstToken hr) trivial trivial h

/-- No expression begins with `let` or `return`. -/
theorem Expr.firstKind_ne : (x : Expr) → x.firstKind ≠ .kwLet ∧ x.firstKind ≠ .kwReturn
  | .identifier _ | .integer _ _ | .boolean _ true | .boolean _ false | .prefixOp .. | .infixOp ..
  | .conditional .. | .function .. => ⟨nofun, nofun⟩
  | .call _ f _ => firstKind_ne f

theorem unique_binding {t : Token} {m : Identifier} {x : Option Expr}
    (hs : ∀ item ∈ (Statement.binding t m x).items, item.Sound) (hx : Expr.Unique? x) :
    (Statement.binding t m x).Unique := by
  intro r rest rest' hr htext
  have hfirst := Statement.firstKind_eq hs hr htext
  cases r with
  | binding u n y =>
    obtain ⟨ht, hs⟩ := List.forall_mem_cons.1 hs
    obtain ⟨hm, -⟩ := List.forall_mem_cons.1 hs
    obtain ⟨hu, hr⟩ := List.forall_mem_cons.1 hr
    obtain ⟨hn, hy⟩ := List.forall_mem_cons.1 hr
    have ht : t.Is .kwLet "let" := ht.1
    have hu : u.Is .kwLet "let" := hu.1
    have hname : m.name.toList ++ ' ' :: '=' :: ' ' :: ((Expr.display? x).toList ++ ';' :: rest) =
        n.name.toList ++ ' ' :: '=' :: ' ' :: ((Expr.display? y).toList ++ ';' :: rest') := by
      simpa [Statement.terminated, ht.2, hu.2] using htext
    obtain ⟨hmn, hvalue⟩ := Identifier.alike_append hm hn (breaks_cons (by decide))
      (breaks_cons (by decide)) hname
    simp only [List.cons.injEq, true_and] at hvalue
    obtain ⟨hxy, hbehind⟩ := hx y _ _ hy (.sign (by decide)) (.sign (by decide)) hvalue
    exact ⟨by rw [Statement.alike, ht.alike hu, hmn, hxy]; rfl, (List.cons.inj hbehind).2⟩
  | returning u y => exact absurd hfirst (by simp [Statement.firstKind])
  | expression y => exact absurd hfirst.symm y.firstKind_ne.1

theorem unique_returning {t : Token} {x : Option Expr}
    (hs : ∀ item ∈ (Statement.returning t x).items, item.Sound) (hx : Expr.Unique? x) :
    (Statement.returning t x).Unique := by
  intro r rest rest' hr htext
  have hfirst := Statement.firstKind_eq hs hr htext
  cases r with
  | binding u n y => exact absurd hfirst (by simp [Statement.firstKind])
  | returning u y =>
    obtain ⟨ht, -⟩ := List.forall_mem_cons.1 hs
    obtain ⟨hu, hy⟩ := List.forall_mem_cons.1 hr
    have ht : t.Is .kwReturn "return" := ht.1
    have hu : u.Is .kwReturn "return" := hu.1
    have hvalue : (Expr.display? x).toList ++ ';' :: rest = (Expr.display? y).toList ++ ';' :: rest' := by
      simpa [Statement.terminated, ht.2, hu.2] using htext
    obtain ⟨hxy, hbehind⟩ := hx y _ _ hy (.sign (by decide)) (.sign (by decide)) hvalue
    exact ⟨by rw [Statement.alike, ht.alike hu, hxy]; rfl, (List.cons.inj hbehind).2⟩
  | expression y => exact absurd hfirst.symm y.firstKind_ne.2

theorem unique_expression {x : Expr} (hs : ∀ item ∈ x.items, item.Sound) (hx : x.Unique) :
    (Statement.expression x).Unique := by
  intro r rest rest' hr htext
  have hfirst := Statement.firstKind_eq (s := .expression x) hs hr htext
  cases r with
  | binding u n y => exact absurd hfirst x.firstKind_ne.1
  | returning u y => exact absurd hfirst x.firstKind_ne.2
  | expression y =>
    have hvalue : x.display.toList ++ ';' :: rest = y.display.toList ++ ';' :: rest' := by
      simpa [Statement.terminated] using htext
    obtain ⟨hxy, hbehind⟩ := hx y _ _ hr (.sign (by decide)) (.sign (by decide)) hvalue
    exact ⟨by rwa [Statement.alike], (List.cons.inj hbehind).2⟩

/-! ### Calls -/

/-- **An expression called with some lists of arguments**, one behind the other. -/
def Expr.applied (f : Expr) (calls : List (Token × List Expr)) : Expr :=
  calls.foldl (fun f call => .call call.1 f call.2) f

/-- The text of the lists of arguments. -/
def callsText (calls : List (Token × List Expr)) : List Char :=
  calls.flatMap fun call => '(' :: ((", ".intercalate (Expr.displayAll call.2)).toList ++ [')'])

/-- **The text of a list of arguments** is that of no other one. -/
structure CallUnique (call : Token × List Expr) : Prop where
  /-- The parenthesis is sound. -/
  sound : (Item.call call.1).Sound
  /-- So are the arguments, and each of them is unique. -/
  arguments : ∀ x ∈ call.2, (∀ item ∈ x.items, item.Sound) ∧ x.Unique

theorem Expr.toList_display_applied (f : Expr) (calls : List (Token × List Expr)) :
    (f.applied calls).display.toList = f.display.toList ++ callsText calls := by
  induction calls generalizing f with
  | nil => exact (List.append_nil _).symm
  | cons call calls ih =>
    rw [show f.applied (call :: calls) = (Expr.call call.1 f call.2).applied calls from rfl, ih]
    simp [Expr.display, callsText]

theorem Expr.items_applied (f : Expr) (calls : List (Token × List Expr)) :
    (f.applied calls).items =
      f.items ++ calls.flatMap fun call => .call call.1 :: Expr.allItems call.2 := by
  induction calls generalizing f with
  | nil => exact (List.append_nil _).symm
  | cons call calls ih =>
    rw [show f.applied (call :: calls) = (Expr.call call.1 f call.2).applied calls from rfl, ih]
    simp [Expr.items]

/-- Every expression is a part that is called, or is not. -/
theorem Expr.exists_applied_eq : (x : Expr) → ∀ calls, ∃ f others,
    x.applied calls = Expr.applied f others ∧ f.IsPart
  | .call t f xs, calls => exists_applied_eq f ((t, xs) :: calls)
  | .identifier _, calls | .integer _ _, calls | .boolean _ _, calls | .prefixOp .., calls
  | .infixOp .., calls | .conditional .., calls | .function .., calls => ⟨_, calls, rfl, by simp [IsPart]⟩

/-- A part closes before the arguments that it is called with. -/
theorem closesPart_calls (calls : List (Token × List Expr)) (h : Closes rest) :
    ClosesPart (callsText calls ++ rest) := by
  cases calls with
  | nil => exact .inl h
  | cons call calls => exact .inr ⟨_, rfl⟩

theorem unique_calls {calls others : List (Token × List Expr)} {f g : Expr}
    (hcalls : ∀ call ∈ calls, CallUnique call)
    (hothers : ∀ call ∈ others, ∀ item ∈ .call call.1 :: Expr.allItems call.2, item.Sound)
    (hfg : f.alike g = true) (hrest : Closes rest) (hrest' : Closes rest')
    (h : callsText calls ++ rest = callsText others ++ rest') :
    (f.applied calls).alike (g.applied others) = true ∧ rest = rest' := by
  induction calls generalizing others f g with
  | nil =>
    cases others with
    | nil => exact ⟨hfg, h⟩
    | cons other others => exact absurd h hrest.ne_paren
  | cons call calls ih =>
    cases others with
    | nil => exact absurd h.symm hrest'.ne_paren
    | cons other others =>
      obtain ⟨⟨hsound, harguments⟩, hcalls⟩ := List.forall_mem_cons.1 hcalls
      obtain ⟨hother, hothers⟩ := List.forall_mem_cons.1 hothers
      obtain ⟨hparen, hys⟩ := List.forall_mem_cons.1 hother
      rw [Expr.allItems_eq_flatMap, List.forall_mem_flatMap] at hys
      have hlist : (", ".intercalate (Expr.displayAll call.2)).toList ++ ')' :: (callsText calls ++ rest) =
          (", ".intercalate (Expr.displayAll other.2)).toList ++ ')' :: (callsText others ++ rest') := by
        simpa [callsText] using h
      obtain ⟨hall, hbehind⟩ := unique_arguments harguments hys hlist
      have halike : (Expr.call call.1 f call.2).alike (.call other.1 g other.2) = true := by
        rw [Expr.alike, Token.Is.alike hsound.1 hparen.1, hfg, hall]
        rfl
      -- the first call belongs to what is called with the other lists
      have happlied := ih hcalls hothers halike hbehind
      exact happlied

/-- **A call is told as a part and the lists of arguments behind it.** -/
theorem unique_applied {f : Expr} {calls : List (Token × List Expr)} (hf : f.PartUnique)
    (hsound : ∀ item ∈ f.items, item.Sound) (hcalls : ∀ call ∈ calls, CallUnique call) :
    (f.applied calls).Unique := by
  intro y rest rest' hy hrest hrest' htext
  obtain ⟨g, others, hyg, hpart⟩ := y.exists_applied_eq []
  obtain rfl : y = g.applied others := hyg
  rw [Expr.items_applied] at hy
  obtain ⟨hg, hothers⟩ := List.forall_mem_append.1 hy
  rw [List.forall_mem_flatMap] at hothers
  rw [Expr.toList_display_applied, Expr.toList_display_applied, List.append_assoc, List.append_assoc]
    at htext
  -- what stands behind the two parts may call them, so it closes no expression but a part
  have hcloses := closesPart_calls calls hrest
  have hcloses' := closesPart_calls others hrest'
  have hfirst := (f.firstToken hsound).eq (g.firstToken hg) hcloses hcloses' htext
  obtain ⟨hfg, hbehind⟩ := hf g _ _ hg hpart hfirst hcloses hcloses' htext
  exact unique_calls hcalls hothers hfg hrest hrest' hbehind

/-! ### All trees -/

-- Calls come first: the callee is smaller than the call, and the lists of arguments that have been
-- passed on the way down to it are kept until a part is reached.
mutual

/-- **The text of a sound expression is that of no other one**, also where it is called. -/
theorem Expr.unique_of_sound : (x : Expr) → (∀ item ∈ x.items, item.Sound) →
    ∀ calls, (∀ call ∈ calls, CallUnique call) → (x.applied calls).Unique
  | .identifier i, h, _, hcalls =>
    unique_applied (unique_identifier (h _ (List.mem_singleton.2 rfl))) h hcalls
  | .integer t value, h, _, hcalls =>
    unique_applied (unique_integer (h _ (List.mem_singleton.2 rfl))) h hcalls
  | .boolean t value, h, _, hcalls =>
    unique_applied (unique_boolean (h _ (List.mem_singleton.2 rfl))) h hcalls
  | .prefixOp t o x, h, _, hcalls => by
    obtain ⟨ht, hx⟩ := List.forall_mem_cons.1 h
    exact unique_applied (unique_prefixOp ht (Expr.unique? x hx)) h hcalls
  | .infixOp t o l x, h, _, hcalls => by
    obtain ⟨hl, hothers⟩ := List.forall_mem_append.1 h
    obtain ⟨ht, hx⟩ := List.forall_mem_cons.1 hothers
    have hleft := Expr.unique_of_sound l hl [] (List.forall_mem_nil _)
    exact unique_applied (unique_infixOp ht hl hleft (Expr.unique? x hx)) h hcalls
  | .conditional t c a e, h, _, hcalls => by
    obtain ⟨ht, hothers⟩ := List.forall_mem_cons.1 h
    obtain ⟨hc, hothers⟩ := List.forall_mem_append.1 hothers
    obtain ⟨ha, he⟩ := List.forall_mem_append.1 hothers
    exact unique_applied (unique_conditional ht (Expr.unique? c hc) (Block.unique a ha)
      (Block.alternativeUnique e he)) h hcalls
  | .function t ps b, h, _, hcalls => by
    obtain ⟨ht, hothers⟩ := List.forall_mem_cons.1 h
    obtain ⟨hps, hb⟩ := List.forall_mem_append.1 hothers
    exact unique_applied (unique_function ht (List.forall_mem_map.1 hps) (Block.unique b hb)) h hcalls
  | .call t f xs, h, calls, hcalls => by
    obtain ⟨hf, hothers⟩ := List.forall_mem_append.1 h
    obtain ⟨ht, hxs⟩ := List.forall_mem_cons.1 hothers
    have hcall : CallUnique (t, xs) := ⟨ht, Expr.allUnique xs hxs⟩
    exact Expr.unique_of_sound f hf ((t, xs) :: calls) (List.forall_mem_cons.2 ⟨hcall, hcalls⟩)

theorem Expr.unique? : (x : Option Expr) → (∀ item ∈ Expr.items? x, item.Sound) → Expr.Unique? x
  | none, _ => unique_none
  | some x, h => unique_some (Expr.unique_of_sound x h [] (List.forall_mem_nil _)) h

theorem Expr.allUnique : (xs : List Expr) → (∀ item ∈ Expr.allItems xs, item.Sound) →
    ∀ x ∈ xs, (∀ item ∈ x.items, item.Sound) ∧ x.Unique
  | [], _ => List.forall_mem_nil _
  | x :: xs, h => by
    obtain ⟨hx, hxs⟩ := List.forall_mem_append.1 h
    exact List.forall_mem_cons.2
      ⟨⟨hx, Expr.unique_of_sound x hx [] (List.forall_mem_nil _)⟩, Expr.allUnique xs hxs⟩

/-- **The text of a sound block is that of no other one.** -/
theorem Block.unique : (b : Block) → (∀ item ∈ b.items, item.Sound) → b.Unique
  | ⟨t, ss⟩, h => by
    obtain ⟨ht, hss⟩ := List.forall_mem_cons.1 h
    exact unique_block ht (Statement.allUnique ss hss)

theorem Block.alternativeUnique : (b : Option Block) →
    (∀ item ∈ Block.alternativeItems b, item.Sound) → Block.AlternativeUnique b
  | none, _ => unique_noAlternative
  | some b, h => unique_alternative (Block.unique b h)

/-- **The text of a sound statement is that of no other one.** -/
theorem Statement.unique : (s : Statement) → (∀ item ∈ s.items, item.Sound) → s.Unique
  | .binding t m x, h => by
    obtain ⟨-, hothers⟩ := List.forall_mem_cons.1 h
    obtain ⟨-, hx⟩ := List.forall_mem_cons.1 hothers
    exact unique_binding h (Expr.unique? x hx)
  | .returning t x, h => by
    obtain ⟨-, hx⟩ := List.forall_mem_cons.1 h
    exact unique_returning h (Expr.unique? x hx)
  | .expression x, h => unique_expression h (Expr.unique_of_sound x h [] (List.forall_mem_nil _))

theorem Statement.allUnique : (ss : List Statement) →
    (∀ item ∈ Statement.allItems ss, item.Sound) →
      ∀ s ∈ ss, (∀ item ∈ s.items, item.Sound) ∧ s.Unique
  | [], _ => List.forall_mem_nil _
  | s :: ss, h => by
    obtain ⟨hs, hss⟩ := List.forall_mem_append.1 h
    exact List.forall_mem_cons.2 ⟨⟨hs, Statement.unique s hs⟩, Statement.allUnique ss hss⟩

end

end MonkeySyntax
