import MonkeySyntax.Proofs.Nesting
import MonkeySyntax.Proofs.RoundTrip
import MonkeySyntax.Proofs.Tree.Height
import MonkeySyntax.Proofs.Tree.Items

/-! # How deep a tree is

The limit on nesting holds for the expressions that are open at once. An operator and a call are put on
top of what was read before them without opening anything, so that they make a tree deeper than the
limit allows for.

* `Expr.continuations` — the number of infix operators and calls of a tree.
* `Expr.Way.le_continuations`, `Expr.Way.exists_descends` — each step of a way down takes off one of these
  or leads inside.
* `callSource n`, `parse_callSource` — a name that is called `n` times in a row, which has one level and
  `n + 1` expressions one below the other.
* **`chain_length_le_iff`** — how long the ways down in a program are, and when the limit on nesting is one
  for its chains; `chain_length_unlimited` — that it is none in general. -/

namespace MonkeySyntax

open Parsing ParseM

/-! ### What a way down spends -/

/-- Whether an item continues an expression that was read before it. -/
def Item.continues : Item → Bool
  | .infixSign _ _ | .call _ => true
  | _ => false

/-- The number of **infix operators and calls** of an expression, those inside it included. -/
def Expr.continuations (x : Expr) : Nat :=
  x.items.countP Item.continues

/-- The items of an expression are among those of a block where it is the expression of a statement. -/
theorem Expr.items_sublist_block {b : Block} {s : Statement} {y : Expr} (hs : s ∈ b.statements)
    (hy : s.expr? = some y) : y.items.Sublist b.items := by
  have hstatement : y.items.Sublist s.items := by
    cases s with
    | binding t name value =>
      obtain rfl : value = some y := hy
      exact .cons _ (.cons _ (.refl _))
    | returning t value =>
      obtain rfl : value = some y := hy
      exact .cons _ (.refl _)
    | expression x =>
      obtain rfl : x = y := Option.some.inj hy
      exact .refl _
  obtain ⟨t, ss⟩ := b
  have hblock : s.items.Sublist (Statement.allItems ss) := by
    rw [Statement.allItems_eq_flatMap]
    exact List.sublist_flatten_of_mem (List.mem_map_of_mem hs)
  exact .cons _ (hstatement.trans hblock)

namespace Expr

variable {x y z : Expr} {inner : Bool} {k : Nat} {xs : List Expr}

/-- **A step that does not lead inside takes off an operator or a call.** -/
theorem Child.continuations_le (h : x.Child inner y) :
    y.continuations + (!inner).toNat ≤ x.continuations := by
  unfold continuations
  cases h with
  | operand | right | condition =>
    simp only [items, items?, List.countP_append, List.countP_cons, Bool.not_true, Bool.toNat_false]
    omega
  | left | callee =>
    simp only [items, List.countP_append, List.countP_cons, Item.continues, if_true, Bool.not_false,
      Bool.toNat_true]
    omega
  | consequence hs hy | alternative hs hy | body hs hy =>
    have hle := (items_sublist_block hs hy).countP_le (p := Item.continues)
    simp only [items, Block.alternativeItems, List.countP_append, List.countP_cons, Bool.not_true,
      Bool.toNat_false]
    omega
  | @argument t f y xs hy =>
    have hitems : y.items.Sublist (allItems xs) := by
      rw [allItems_eq_flatMap]
      exact List.sublist_flatten_of_mem (List.mem_map_of_mem hy)
    have hle := hitems.countP_le (p := Item.continues)
    simp only [items, List.countP_append, List.countP_cons, Bool.not_true, Bool.toNat_false]
    omega

/-- **A way takes off an operator or a call** with every step that does not lead inside. -/
theorem Way.le_continuations {n : Nat} (h : x.Way n xs) : n ≤ x.continuations := by
  induction h with
  | here => exact Nat.zero_le _
  | step hstep _ ih =>
    have hle := hstep.continuations_le
    omega

/-- Each step of a way leads inside or is counted. -/
theorem Way.exists_descends {n : Nat} (h : x.Way n xs) :
    ∃ k y, x.Descends k y ∧ xs.length = k + n := by
  induction h with
  | here => exact ⟨0, _, .here, rfl⟩
  | @step x y inner n ys hstep _ ih =>
    obtain ⟨k, z, hz, hlength⟩ := ih
    have hspent : inner.toNat + (!inner).toNat = 1 := by cases inner <;> rfl
    exact ⟨_, z, .step hstep hz, by rw [List.length_cons]; omega⟩

end Expr

/-! ### A name that is called again and again -/

/-- A name that is called `n` times in a row. -/
def callSource (n : Nat) : String :=
  String.ofList ('a' :: (List.replicate n ['(', ')']).flatten)

/-- Calls in a row open no expression, but each of them stands above the ones before it. -/
theorem lexes_calls (n : Nat) {rest : List Char} (hrest : Breaks rest) :
    Lexes ('a' :: (List.replicate n ['(', ')']).flatten) rest fun ts =>
      ∃ x xs, Derives (.part x .call) ts 0 ∧ x.Way n xs ∧ xs.length = n := by
  induction n generalizing rest with
  | zero =>
    refine (lexes_a hrest).imp ?_
    rintro ts ⟨t, rfl, ht⟩
    exact ⟨_, [], .identifier ht, .here, rfl⟩
  | succ n ih =>
    have htext : 'a' :: (List.replicate (n + 1) ['(', ')']).flatten =
        'a' :: (List.replicate n ['(', ')']).flatten ++ '(' :: ')' :: [] := by
      rw [List.replicate_succ', List.flatten_append]
      simp
    rw [htext]
    refine ((ih (breaks_cons (by decide))).append
      (Lexes.symbol (k := .openParen) (by decide) (fun _ => rfl)
        (Lexes.symbol (k := .closeParen) (by decide) (fun _ => rfl) Lexes.nil))).imp ?_
    rintro ts ⟨fs, -, rfl, ⟨f, xs, hf, hway, hlength⟩, o, -, rfl, ho, c, -, rfl, hc, rfl⟩
    -- what was called before is the callee of the last call
    have hcall : (Expr.call o f []).Way (1 + n) (f :: xs) := .step .callee hway
    exact ⟨_, f :: xs, .call hf ho .noArguments hc, Nat.add_comm 1 n ▸ hcall, congrArg (· + 1) hlength⟩

/-- **Calls in a row are accepted** however many they are, and the tree is as deep as they are many. -/
theorem parse_callSource (file : String) (n : Nat) :
    (parseAs file (callSource n)).diagnostics = [] ∧ ∃ s x xs,
      s ∈ (parseAs file (callSource n)).program.statements ∧ s.expr? = some x ∧
        x.Way n xs ∧ xs.length = n := by
  have hlexes := lexes_calls n breaks_nil
  rw [← String.toList_ofList (l := 'a' :: _), ← callSource] at hlexes
  obtain ⟨x, xs, hx, hway, hlength⟩ := hlexes.tokenize file
  have hwhole : Derives (.expr .lowest x) _ (0 + 1) := hx.whole (by decide)
  obtain ⟨hnone, hread⟩ := parseAs_of_derives hwhole (by decide)
  exact ⟨hnone, .expression x, x, xs, by rw [hread]; exact List.mem_singleton_self _, rfl, hway,
    hlength⟩

/-! ### The chains of a program -/

/-- **How deep the trees of a program are.** A way down from the expression of a statement has no more than
256 expressions and one more for each of its steps to a left operand or to a callee, each of which takes
off an infix operator or a call. So the expression is no higher than 256 and one more for each of these.
The limit on nesting is one for its chains as well, that is, no chain of expressions in it, each below the
one before, has more than 256 of them, if and only if its height is no more than 256. Only ways with such
a step can break it. -/
theorem chain_length_le_iff {file source : String} {s : Statement} {x : Expr}
    (hs : s ∈ (parseAs file source).program.statements) (hx : s.expr? = some x) :
    (∀ n xs, x.Way n xs → (x :: xs).length ≤ 256 + n ∧ n ≤ x.continuations) ∧
      x.height ≤ 256 + x.continuations ∧
      ((∀ xs : List Expr, (∀ y ∈ xs.head?, y = x ∨ x.Below y) → xs.IsChain Expr.Below →
        xs.length ≤ 256) ↔ x.height ≤ 256) ∧
      (x.height ≤ 256 ↔ ∀ n xs, x.Way n xs → 0 < n → (x :: xs).length ≤ 256) := by
  have hways : ∀ n xs, x.Way n xs → (x :: xs).length ≤ 256 + n := by
    intro n xs hxs
    obtain ⟨k, y, hy, hlength⟩ := hxs.exists_descends
    have hlt := within_parseAs hs x hx k y hy
    rw [List.length_cons]
    omega
  obtain ⟨n, ys, hys, hheight⟩ := x.exists_way
  refine ⟨fun n xs hxs => ⟨hways n xs hxs, hxs.le_continuations⟩, ?_, ⟨fun h => ?_, ?_⟩,
    fun h n xs hxs _ => (Expr.length_le_height hxs.isChain).trans h, fun h => ?_⟩
  · exact hheight ▸ (hways n ys hys).trans (Nat.add_le_add_left hys.le_continuations 256)
  · exact hheight ▸ h (x :: ys) (by simp) hys.isChain
  · intro h xs hhead hchain
    -- a chain that begins further down is part of one that begins at the top
    cases xs with
    | nil => exact Nat.zero_le _
    | cons y ys =>
      rcases hhead y rfl with rfl | hy
      · exact (Expr.length_le_height hchain).trans h
      · have hle := Expr.length_le_height (List.IsChain.cons_cons hy hchain)
        exact ((Nat.le_succ _).trans hle).trans h
  · -- the longest way is short enough if it only leads inside
    rcases Nat.eq_zero_or_pos n with rfl | hn
    · exact hheight ▸ hways 0 ys hys
    · exact hheight ▸ h n ys hys hn

/-- A name that is called twice has a way with two steps to a callee, and no chain that is too long. -/
theorem chain_length_le_calls :
    ∃ s ∈ (parseAs "" (callSource 2)).program.statements, ∃ x, s.expr? = some x ∧
      (∃ xs, xs.length = 2 ∧ x.Way 2 xs) ∧
      (∀ n xs, x.Way n xs → (x :: xs).length ≤ 256 + n ∧ n ≤ x.continuations) ∧
      x.height ≤ 256 + x.continuations ∧
      ((∀ xs : List Expr, (∀ y ∈ xs.head?, y = x ∨ x.Below y) → xs.IsChain Expr.Below →
        xs.length ≤ 256) ↔ x.height ≤ 256) ∧
      (x.height ≤ 256 ↔ ∀ n xs, x.Way n xs → 0 < n → (x :: xs).length ≤ 256) := by
  obtain ⟨-, s, x, xs, hs, hx, hway, hlength⟩ := parse_callSource "" 2
  exact ⟨s, hs, x, hx, ⟨xs, hlength, hway⟩, chain_length_le_iff hs hx⟩

/-- So the limit on nesting is **none for the depth of a tree**: a name that is called 256 times in a row
is accepted, and gives a chain of 257 expressions. -/
theorem chain_length_unlimited :
    ¬ ∀ (file source : String) (s : Statement) (x : Expr) (xs : List Expr),
      s ∈ (parseAs file source).program.statements → s.expr? = some x →
        (∀ y ∈ xs.head?, y = x ∨ x.Below y) → xs.IsChain Expr.Below → xs.length ≤ 256 := by
  intro h
  obtain ⟨-, s, x, xs, hs, hx, hway, hlength⟩ := parse_callSource defaultFileName 256
  have hle := h defaultFileName (callSource 256) s x (x :: xs) hs hx (by simp) hway.isChain
  rw [List.length_cons, hlength] at hle
  exact absurd hle (by decide)

end MonkeySyntax
