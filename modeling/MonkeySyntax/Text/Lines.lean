/-! # Lists cut into lines

A list is cut behind each item that ends a line, and that item stays with its line. The last line
may lack it.

* `cutBehind`: the lines of a list.

`flatten_cutBehind` says that nothing is lost, `cutBehind_append_cons` tells the first line, and
`cutBehind_flatMap` all lines that have been ended.
-/

namespace MonkeySyntax

variable {α : Type}

/-- The **lines** of a list, where `ends` tells the items that end a line. An empty list has no
line. -/
def cutBehind (ends : α → Bool) : List α → List (List α)
  | [] => []
  | a :: as =>
    if ends a then
      [a] :: cutBehind ends as
    else
      match cutBehind ends as with
      | [] => [[a]]
      | line :: lines => (a :: line) :: lines

@[simp] theorem cutBehind_nil (ends : α → Bool) : cutBehind ends [] = [] := rfl

/-- Cutting into lines loses nothing. -/
@[simp] theorem flatten_cutBehind (ends : α → Bool) (as : List α) :
    (cutBehind ends as).flatten = as := by
  induction as with
  | nil => rfl
  | cons a as ih =>
    unfold cutBehind
    split
    · simp [ih]
    · split
      · next h =>
        rw [h] at ih
        simpa using ih
      · next h =>
        rw [h] at ih
        simpa using ih

/-- The first item that ends a line ends the **first line**. -/
theorem cutBehind_append_cons {ends : α → Bool} {as : List α} {b : α}
    (has : ∀ a ∈ as, ends a = false) (hb : ends b = true) (bs : List α) :
    cutBehind ends (as ++ b :: bs) = (as ++ [b]) :: cutBehind ends bs := by
  induction as with
  | nil => simp [cutBehind, hb]
  | cons a as ih =>
    obtain ⟨ha, has⟩ := List.forall_mem_cons.1 has
    simp [cutBehind, ha, ih has]

/-- Items that end no line are the **last line**. -/
theorem cutBehind_eq_singleton {ends : α → Bool} {as : List α} (hne : as ≠ [])
    (has : ∀ a ∈ as, ends a = false) : cutBehind ends as = [as] := by
  induction as with
  | nil => exact absurd rfl hne
  | cons a as ih =>
    obtain ⟨ha, has⟩ := List.forall_mem_cons.1 has
    cases as with
    | nil => simp [cutBehind, ha]
    | cons b bs => rw [cutBehind, if_neg (by simp [ha]), ih (List.cons_ne_nil b bs) has]

/-- **Lines that have been ended** are cut apart again. -/
theorem cutBehind_flatMap {ends : α → Bool} {b : α} (hb : ends b = true) {lines : List (List α)}
    (h : ∀ line ∈ lines, ∀ a ∈ line, ends a = false) :
    cutBehind ends (lines.flatMap (· ++ [b])) = lines.map (· ++ [b]) := by
  induction lines with
  | nil => rfl
  | cons line lines ih =>
    obtain ⟨hline, hlines⟩ := List.forall_mem_cons.1 h
    rw [List.flatMap_cons, List.append_assoc, List.singleton_append, cutBehind_append_cons hline hb,
      ih hlines, List.map_cons]

end MonkeySyntax
