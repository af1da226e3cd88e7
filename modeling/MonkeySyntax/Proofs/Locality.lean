import MonkeySyntax.Proofs.Operations
import MonkeySyntax.Proofs.Token.CursorMove

/-! # A cursor reads what stands at its place

A cursor may be moved by hand to any place, also beyond the end of its source or into the middle of a
character. What it reads there does not depend on how it came there.

* `sourceToken_item` — the items of a source are its tokens without the end.
* `Cursor.Ahead.ofCursor?` — a parser over a cursor sees the tokens that are left.
* **`cursor_reads_locally`** — what a cursor reads behind any movements, and behind those that only
  read. -/

namespace MonkeySyntax

/-- A token of a source is an item unless it is the end, behind which there are no items. -/
theorem sourceToken_item (file source : String) (n : Nat) :
    (if (sourceToken file source n).kind = .eof then none else some (sourceToken file source n)) =
      (tokenize source file).dropLast[n]? := by
  obtain ⟨ts, hts, hspelt⟩ := tokensFrom_eq_append file 0 source.toList
  rw [sourceToken_eq, tokenFrom, tokenize, hts, List.dropLast_concat]
  rcases Nat.lt_or_ge n ts.length with hlt | hge
  · have hkind := (hspelt _ (List.getElem_mem hlt)).ne_eof
    rw [List.getElem?_append_left hlt, List.getElem?_eq_getElem hlt, Option.getD_some, if_neg hkind]
  · have hend : (ts ++ [Token.endOf file (0 + byteLength source.toList)])[n]?.getD
        (.endOf file (0 + byteLength source.toList)) = .endOf file (0 + byteLength source.toList) := by
      rw [List.getElem?_append_right hge]
      cases n - ts.length <;> rfl
    rw [hend, if_pos (Token.kind_endOf _ _), List.getElem?_eq_none hge]

/-- **A parser over a cursor** sees the tokens that are left. -/
theorem Cursor.Ahead.ofCursor? {c : Cursor} {token : Nat → Token} (h : c.Ahead token) (g : Grammar) :
    ∃ ts, Parser.ofCursor? g c = some (.ofTokens g ts) ∧ (Parser.ofTokens g ts).tokenAt = token := by
  obtain ⟨cs, hbefore, rfl⟩ := h
  refine ⟨tokensFrom c.file c.offset cs, ?_, Parser.tokenAt_tokensFrom g c.file c.offset cs⟩
  rw [Parser.ofCursor?, hbefore.drain?, Option.map_some]

/-- **A cursor reads what stands at its place.** Behind any movements, by reading or by hand, it has its
source and its name and reads locally: inside a character nothing can be read; at the end of the source
and beyond it the end is read and the cursor stays; anywhere else the first token of the text from there
on is read, as far back as the cursor stands, and the cursor stops behind it, between two characters.

Where all movements read, none of them fails. So many tokens have been read then, and next comes the one
with this number, or the item with this number if there is one. A parser over the cursor sees exactly
the tokens that are left, and behind them the end of the source. -/
theorem cursor_reads_locally (file : String) {source : String}
    (hfits : byteLength source.toList < offsetBound) :
    (∀ moves c, (Cursor.ofSource source file).moves? moves = some c →
      c.source = source ∧ c.file = file ∧ c.ReadsLocally) ∧
    ∀ moves : List Cursor.Move, (∀ m ∈ moves, m.Reads) →
      ∃ c, (Cursor.ofSource source file).moves? moves = some c ∧
        c.next?.map Prod.fst = some (sourceToken file source moves.length) ∧
        c.nextItem?.map Prod.fst = some (tokenize source file).dropLast[moves.length]? ∧
        ∀ g, ∃ ts, Parser.ofCursor? g c = some (.ofTokens g ts) ∧
          ∀ i, (Parser.ofTokens g ts).tokenAt i = sourceToken file source (moves.length + i) := by
  refine ⟨fun moves c hmoves => ?_, fun moves hreads => ?_⟩
  · obtain ⟨hsource, hfile⟩ := Cursor.source_of_moves? hmoves
    refine ⟨hsource, hfile, Cursor.readsLocally ?_⟩
    rw [Cursor.size, hsource]
    exact hfits
  · obtain ⟨c, hmoves, hahead⟩ := (Cursor.ahead_ofSource source file).moves? hreads
    obtain ⟨d, hnext, -⟩ := hahead.next?
    refine ⟨c, hmoves, by rw [hnext]; rfl, ?_, fun g => ?_⟩
    · rw [Cursor.nextItem?, hnext, ← sourceToken_item]
      rfl
    · obtain ⟨ts, hcursor, htokens⟩ := hahead.ofCursor? g
      exact ⟨ts, hcursor, fun i => congrFun htokens i⟩

/-- In the middle of a foreign letter nothing can be read; behind it the token that stands there is the
same whichever way the cursor came. -/
theorem cursor_reads_locally_letter :
    byteLength "é x".toList < offsetBound ∧
      (∃ c, (Cursor.ofSource "é x" "").moves? [.skip 1] = some c ∧ c.ReadsLocally ∧ c.next? = none) ∧
      (∃ c, (Cursor.ofSource "é x" "").moves? [.skip 3] = some c ∧ c.ReadsLocally ∧
        c.next?.map Prod.fst = some (sourceToken "" "é x" 1)) ∧
      ∃ c, (Cursor.ofSource "é x" "").moves? [.item] = some c ∧
        c.next?.map Prod.fst = some (sourceToken "" "é x" 1) := by
  have hfits : byteLength "é x".toList < offsetBound := by decide
  obtain ⟨hany, hreads⟩ := cursor_reads_locally "" hfits
  refine ⟨hfits, ⟨_, rfl, (hany [.skip 1] _ rfl).2.2, ?_⟩, ⟨_, rfl, (hany [.skip 3] _ rfl).2.2, ?_⟩, ?_⟩
  · decide +kernel
  · decide +kernel
  · obtain ⟨c, hmoves, hnext, -⟩ := hreads [.item] (by decide)
    exact ⟨c, hmoves, hnext⟩

end MonkeySyntax
