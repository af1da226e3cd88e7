import Mathlib.Data.List.Forall2
import MonkeySyntax.Tree.Alike
import MonkeySyntax.Tree.Printer

/-! # Alike trees have one text

The text of a tree depends on the texts of its tokens only, so alike trees are printed alike.

* `Expr.allAlike_of_forall₂`, `Statement.allAlike_of_forall₂` — lists that are alike place by place.
* `Expr.display_eq`, `Block.braced_eq`, `Statement.terminated_eq` — the texts of alike nodes.
* **`Program.toSource_eq`** — the source texts of alike programs.
* `Program.display_eq` — what a reader is shown of alike programs. -/

namespace MonkeySyntax

/-! ### Place by place -/

theorem Identifier.allAlike_of_forall₂ {as bs : List Identifier}
    (h : List.Forall₂ (Identifier.alike · · = true) as bs) : allAlike as bs = true := by
  induction h with
  | nil => rfl
  | cons hab _ ih => rw [allAlike, hab, ih, Bool.and_self]

theorem Expr.allAlike_of_forall₂ {xs ys : List Expr}
    (h : List.Forall₂ (Expr.alike · · = true) xs ys) : Expr.allAlike xs ys = true := by
  induction h with
  | nil => rfl
  | cons hxy _ ih => rw [allAlike, hxy, ih, Bool.and_self]

theorem Statement.allAlike_of_forall₂ {ss rs : List Statement}
    (h : List.Forall₂ (Statement.alike · · = true) ss rs) : Statement.allAlike ss rs = true := by
  induction h with
  | nil => rfl
  | cons hsr _ ih => rw [allAlike, hsr, ih, Bool.and_self]

/-! ### Texts -/

theorem Identifier.name_eq {a b : Identifier} (h : a.alike b = true) : a.name = b.name := by
  rw [alike, Bool.and_eq_true] at h
  exact beq_iff_eq.1 h.2

theorem Identifier.names_eq {as bs : List Identifier} (h : allAlike as bs = true) :
    as.map (·.name) = bs.map (·.name) := by
  induction as generalizing bs with
  | nil =>
    cases bs with
    | nil => rfl
    | cons b bs => exact absurd h (by simp [allAlike])
  | cons a as ih =>
    cases bs with
    | nil => exact absurd h (by simp [allAlike])
    | cons b bs =>
      rw [allAlike, Bool.and_eq_true] at h
      rw [List.map_cons, List.map_cons, name_eq h.1, ih h.2]

-- Trees with different constructors are not alike, so only one case of each tree is left.
mutual

/-- **Alike expressions** have one text. -/
theorem Expr.display_eq : (x y : Expr) → x.alike y = true → x.display = y.display
  | .identifier a, y, h => by
    cases y with
    | identifier b => exact Identifier.name_eq (by simpa only [Expr.alike] using h)
    | _ => exact absurd h (by simp [Expr.alike])
  | .integer t m, y, h => by
    cases y with
    | integer u n =>
      simp only [Expr.alike, Bool.and_eq_true, Token.alike_iff] at h
      exact h.1.2
    | _ => exact absurd h (by simp [Expr.alike])
  | .boolean t p, y, h => by
    cases y with
    | boolean u q =>
      simp only [Expr.alike, Bool.and_eq_true, Token.alike_iff] at h
      exact h.1.2
    | _ => exact absurd h (by simp [Expr.alike])
  | .prefixOp t o x, y, h => by
    cases y with
    | prefixOp u p z =>
      simp only [Expr.alike, Bool.and_eq_true, beq_iff_eq] at h
      rw [Expr.display, Expr.display, h.1.2, Expr.display?_eq x z h.2]
    | _ => exact absurd h (by simp [Expr.alike])
  | .infixOp t o l x, y, h => by
    cases y with
    | infixOp u p m z =>
      simp only [Expr.alike, Bool.and_eq_true, beq_iff_eq] at h
      rw [Expr.display, Expr.display, h.1.1.2, Expr.display_eq l m h.1.2, Expr.display?_eq x z h.2]
    | _ => exact absurd h (by simp [Expr.alike])
  | .conditional t c a e, y, h => by
    cases y with
    | conditional u d b f =>
      simp only [Expr.alike, Bool.and_eq_true, Token.alike_iff] at h
      rw [Expr.display, Expr.display, h.1.1.1.2, Expr.display?_eq c d h.1.1.2,
        Block.braced_eq a b h.1.2, Block.otherwise?_eq e f h.2]
    | _ => exact absurd h (by simp [Expr.alike])
  | .function t ps a, y, h => by
    cases y with
    | function u qs b =>
      simp only [Expr.alike, Bool.and_eq_true, Token.alike_iff] at h
      rw [Expr.display, Expr.display, h.1.1.2, Identifier.names_eq h.1.2, Block.braced_eq a b h.2]
    | _ => exact absurd h (by simp [Expr.alike])
  | .call t f xs, y, h => by
    cases y with
    | call u g ys =>
      simp only [Expr.alike, Bool.and_eq_true] at h
      rw [Expr.display, Expr.display, Expr.display_eq f g h.1.2, Expr.displayAll_eq xs ys h.2]
    | _ => exact absurd h (by simp [Expr.alike])

theorem Expr.display?_eq : (x y : Option Expr) → Expr.alike? x y = true →
    Expr.display? x = Expr.display? y
  | none, none, _ => rfl
  | some x, some y, h => Expr.display_eq x y h
  | none, some _, h => absurd h (by simp [Expr.alike?])
  | some _, none, h => absurd h (by simp [Expr.alike?])

theorem Expr.displayAll_eq : (xs ys : List Expr) → Expr.allAlike xs ys = true →
    Expr.displayAll xs = Expr.displayAll ys
  | [], [], _ => rfl
  | x :: xs, y :: ys, h => by
    rw [Expr.allAlike, Bool.and_eq_true] at h
    rw [Expr.displayAll, Expr.displayAll, Expr.display_eq x y h.1, Expr.displayAll_eq xs ys h.2]
  | [], _ :: _, h => absurd h (by simp [Expr.allAlike])
  | _ :: _, [], h => absurd h (by simp [Expr.allAlike])

/-- **Alike blocks** have one text. -/
theorem Block.braced_eq : (a b : Block) → a.alike b = true → a.braced = b.braced
  | ⟨t, ss⟩, ⟨u, rs⟩, h => by
    rw [Block.alike, Bool.and_eq_true] at h
    rw [Block.braced, Block.braced, Statement.spacedAll_eq ss rs h.2]

theorem Block.otherwise?_eq : (a b : Option Block) → Block.alike? a b = true →
    Block.otherwise? a = Block.otherwise? b
  | none, none, _ => rfl
  | some a, some b, h => by rw [Block.otherwise?, Block.otherwise?, Block.braced_eq a b h]
  | none, some _, h => absurd h (by simp [Block.alike?])
  | some _, none, h => absurd h (by simp [Block.alike?])

/-- **Alike statements** have one text. -/
theorem Statement.terminated_eq : (s r : Statement) → s.alike r = true → s.terminated = r.terminated
  | .binding t m x, r, h => by
    cases r with
    | binding u n y =>
      simp only [Statement.alike, Bool.and_eq_true, Token.alike_iff] at h
      rw [Statement.terminated, Statement.terminated, h.1.1.2, Identifier.name_eq h.1.2,
        Expr.display?_eq x y h.2]
    | _ => exact absurd h (by simp [Statement.alike])
  | .returning t x, r, h => by
    cases r with
    | returning u y =>
      simp only [Statement.alike, Bool.and_eq_true, Token.alike_iff] at h
      rw [Statement.terminated, Statement.terminated, h.1.2, Expr.display?_eq x y h.2]
    | _ => exact absurd h (by simp [Statement.alike])
  | .expression x, r, h => by
    cases r with
    | expression y => rw [Statement.terminated, Statement.terminated, Expr.display_eq x y h]
    | _ => exact absurd h (by simp [Statement.alike])

theorem Statement.spacedAll_eq : (ss rs : List Statement) → Statement.allAlike ss rs = true →
    Statement.spacedAll ss = Statement.spacedAll rs
  | [], [], _ => rfl
  | s :: ss, r :: rs, h => by
    rw [Statement.allAlike, Bool.and_eq_true] at h
    rw [Statement.spacedAll, Statement.spacedAll, Statement.terminated_eq s r h.1,
      Statement.spacedAll_eq ss rs h.2]
  | [], _ :: _, h => absurd h (by simp [Statement.allAlike])
  | _ :: _, [], h => absurd h (by simp [Statement.allAlike])

end

/-- What alike statements have in common, alike lists of them have in common place by place. -/
theorem Statement.map_eq {α : Type} {f : Statement → α}
    (hf : ∀ s r : Statement, s.alike r = true → f s = f r) {ss rs : List Statement}
    (h : Statement.allAlike ss rs = true) : ss.map f = rs.map f := by
  induction ss generalizing rs with
  | nil =>
    cases rs with
    | nil => rfl
    | cons r rs => exact absurd h (by simp [allAlike])
  | cons s ss ih =>
    cases rs with
    | nil => exact absurd h (by simp [allAlike])
    | cons r rs =>
      rw [allAlike, Bool.and_eq_true] at h
      rw [List.map_cons, List.map_cons, hf s r h.1, ih h.2]

/-- **Alike programs** have one source text. -/
theorem Program.toSource_eq {p q : Program} (h : p.alike q = true) : p.toSource = q.toSource := by
  rw [toSource, toSource, Statement.map_eq Statement.terminated_eq h]

/-! ### What a reader is shown -/

theorem Statement.display_eq (s r : Statement) (h : s.alike r = true) : s.display = r.display := by
  cases s with
  | expression x =>
    cases r with
    | expression y => exact Expr.display_eq x y h
    | _ => exact absurd h (by simp [Statement.alike])
  | binding t m x =>
    cases r with
    | binding u n y => exact Statement.terminated_eq (.binding t m x) (.binding u n y) h
    | _ => exact absurd h (by simp [Statement.alike])
  | returning t x =>
    cases r with
    | returning u y => exact Statement.terminated_eq (.returning t x) (.returning u y) h
    | _ => exact absurd h (by simp [Statement.alike])

/-- **Alike programs** are shown alike. -/
theorem Program.display_eq {p q : Program} (h : p.alike q = true) : p.display = q.display := by
  rw [display, display, Statement.map_eq Statement.display_eq h]

end MonkeySyntax
