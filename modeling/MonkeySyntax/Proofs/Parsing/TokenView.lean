import Mathlib.Logic.Function.Iterate
import MonkeySyntax.Proofs.Parsing.Later

/-! # The tokens ahead of a parser

A parser sees its source as the list of the tokens from the current one on.

* **`Parser.rest`** — these tokens; `Parser.rest_advance` takes off the first of them.
* **`Parser.skip`** — a number of tokens forward, which is all that a clean run of an expression
  does to a parser.
* `current_of_rest`, `peek_of_rest`, `rest_eq_cons` — the two tokens that are looked at, and back. -/

namespace MonkeySyntax

namespace Parser

variable {p q : Parser} {t u : Token} {ts : List Token}

/-- **The tokens from the current one on**, as far as the source goes. -/
def rest (p : Parser) : List Token :=
  p.tokens.toList.drop p.index

@[simp] theorem rest_clearTrace (p : Parser) : p.clearTrace.rest = p.rest := rfl

theorem rest_advance (p : Parser) : p.advance.rest = p.rest.tail := by
  rw [rest, rest, advance_tokens, advance_index, List.tail_drop]

theorem tokenAt_eq (p : Parser) (n : Nat) : p.tokenAt (p.index + n) = (p.rest[n]?).getD p.eof := by
  rw [tokenAt, rest, List.getElem?_drop, Array.getElem?_toList]

theorem current_of_rest (h : p.rest = t :: ts) : p.current = t := by
  have hcurrent := p.tokenAt_eq 0
  rw [h] at hcurrent
  exact hcurrent

theorem peek_of_rest (h : p.rest = t :: u :: ts) : p.peek = u := by
  have hpeek := p.tokenAt_eq 1
  rw [h] at hpeek
  exact hpeek

/-- Inside the source the current token heads the tokens that are left. -/
theorem rest_eq_cons (hp : p.Standard) (h : p.current.kind ≠ .eof) :
    p.rest = p.current :: p.advance.rest := by
  have hcurrent := p.tokenAt_eq 0
  rw [rest_advance]
  cases hrest : p.rest with
  | nil =>
    have heof : p.current = p.eof := by rw [hrest] at hcurrent; exact hcurrent
    exact absurd (heof ▸ hp.eof_kind) h
  | cons t ts => rw [current_of_rest hrest, List.tail_cons]

theorem advance_rest_eq_cons (hp : p.Standard) (h : p.peek.kind ≠ .eof) :
    p.advance.rest = p.peek :: p.advance.advance.rest := by
  rw [rest_eq_cons hp.advance (by rwa [current_advance]), current_advance]

/-! ### A number of tokens forward -/

/-- The parser **a number of tokens forward**. -/
def skip (p : Parser) (n : Nat) : Parser :=
  advance^[n] p

@[simp] theorem skip_zero (p : Parser) : p.skip 0 = p := rfl

theorem skip_succ (p : Parser) (n : Nat) : p.skip (n + 1) = p.advance.skip n := rfl

theorem advance_skip (p : Parser) (n : Nat) : (p.skip n).advance = p.skip (n + 1) :=
  (Function.iterate_succ_apply' advance n p).symm

theorem skip_skip (p : Parser) (m n : Nat) : (p.skip m).skip n = p.skip (m + n) := by
  rw [Nat.add_comm]
  exact (Function.iterate_add_apply advance n m p).symm

theorem later_skip (p : Parser) (n : Nat) : Later p (p.skip n) := by
  induction n with
  | zero => exact later_refl p
  | succ n ih =>
    rw [← advance_skip]
    exact ih.trans (later_advance _)

theorem index_skip (p : Parser) (n : Nat) : (p.skip n).index = p.index + n := by
  induction n generalizing p with
  | zero => rfl
  | succ n ih =>
    rw [skip_succ, ih, advance_index]
    omega

theorem skip_withDepth (p : Parser) (m n : Nat) :
    (p.withDepth m).skip n = (p.skip n).withDepth m := by
  induction n generalizing p with
  | zero => rfl
  | succ n ih => rw [skip_succ, skip_succ, advance_withDepth, ih]

@[simp] theorem rest_skip (p : Parser) (n : Nat) : (p.skip n).rest = p.rest.drop n := by
  induction n generalizing p with
  | zero => rfl
  | succ n ih => rw [skip_succ, ih, rest_advance, List.drop_tail]

theorem Standard.skip (hp : p.Standard) (n : Nat) : (p.skip n).Standard :=
  hp.later (later_skip p n)

/-- The tokens behind a first list of them. -/
theorem rest_skip_append {us : List Token} (h : p.rest = ts ++ us) :
    (p.skip ts.length).rest = us := by
  rw [rest_skip, h, List.drop_left]

/-- Behind the last token of a list all of its tokens have been passed. -/
theorem advance_skip_pred (p : Parser) (hts : ts ≠ []) :
    (p.skip (ts.length - 1)).advance = p.skip ts.length := by
  have hpos := List.length_pos_iff.2 hts
  rw [advance_skip, Nat.sub_add_cancel hpos]

/-- From the last token of a list to the last one of another list behind it. -/
theorem skip_pred_skip (p : Parser) (hts : ts ≠ []) (us : List Token) :
    (p.skip (ts.length - 1)).skip us.length = p.skip ((ts ++ us).length - 1) := by
  have hpos := List.length_pos_iff.2 hts
  rw [skip_skip, List.length_append, Nat.sub_add_comm hpos]

/-- The last token of a list and the one behind it. -/
theorem rest_skip_pred {us : List Token} (h : p.rest = ts ++ us) (hts : ts ≠ []) :
    (p.skip (ts.length - 1)).rest = ts.getLast hts :: us := by
  have hsplit := List.dropLast_concat_getLast hts
  have hlength : (ts.dropLast).length = ts.length - 1 := List.length_dropLast
  rw [← hlength]
  refine rest_skip_append ?_
  rw [h]
  conv_lhs => rw [← hsplit]
  rw [List.append_assoc, List.singleton_append]

end Parser

end MonkeySyntax
