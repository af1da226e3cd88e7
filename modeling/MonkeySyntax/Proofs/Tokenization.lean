import MonkeySyntax.Proofs.Token.CursorRun
import MonkeySyntax.Proofs.Token.Tiling

/-! # What a source is cut into

The tokens of a source lie in it side by side like tiles, with nothing but blanks between them, and
each one is what its text says it is.

* **`tokenize_tiles`** — the tiling of a source, and its tokens as a cursor reads them one by one. -/

namespace MonkeySyntax

/-- **The tokens of a source are a lossless tiling of it**, each as long as it can be.

Behind all others there is one token for the end, with an empty text and an empty span. The others are
a `Tiling` of the source: each says what stands in its span, is not empty, stops before the ones behind
it start and has the kind that its text determines, and what lies in none of them is blank; the
character behind a token does not belong to it, so that no word stops before a letter, no number before
a digit, and neither `=` nor `!` before `=`. An illegal token is one character that starts no other
token. A cursor reads these tokens one by one, and then the end again and again: it never stands inside
a character, where it could not read on. -/
theorem tokenize_tiles (file : String) {source : String}
    (hfits : byteLength source.toList < offsetBound) :
    ∃ ts eof, tokenize source file = ts ++ [eof] ∧
      eof.kind = .eof ∧ eof.text = "" ∧
      eof.start = byteLength source.toList ∧ eof.stop = byteLength source.toList ∧
      Tiling 0 source.toList ts ∧
      (∀ t ∈ ts, t.kind = .illegal → ∃ c, t.text.toList = [c] ∧ isBlank c = false ∧
        ∀ (k : Kind) (cs : List Char), k.WrittenAs (c :: cs) → k = .illegal) ∧
      ∀ n, ∃ c d, (Cursor.ofSource source file).nextTimes? n = some c ∧
        c.next? = some (sourceToken file source n, d) := by
  have htiles : Tiles file 0 source.toList (tokenize source file) := tiles_iff.2 rfl
  rw [← Nat.zero_add (byteLength source.toList)] at hfits ⊢
  obtain ⟨ts, hts, htiling⟩ := htiles.tiling hfits
  refine ⟨ts, .endOf file (0 + byteLength source.toList), hts, rfl, rfl, start_of_fits hfits file 0,
    start_of_fits hfits file 0, htiling, fun t ht hkind => ?_, Cursor.nextTimes?_ofSource source file⟩
  have hwritten : Kind.illegal.WrittenAs t.text.toList := (htiling.kind_iff t ht .illegal).2 hkind
  obtain ⟨c, htext, hblank, hothers⟩ := (Kind.writtenAs_iff_spelt.1 hwritten).illegal
  exact ⟨c, htext, hblank, fun k cs hk => hothers k cs (Kind.writtenAs_iff_spelt.1 hk)⟩

/-- A keyword is a token of its own kind, of three signs `=` the first two are one token, and a foreign
letter is a token by itself. -/
theorem tokenize_tiles_run :
    byteLength "let a1 ===é\n".toList < offsetBound ∧
      (tokenize "let a1 ===é\n" defaultFileName).map (fun t => (t.kind, t.text)) =
        [(.kwLet, "let"), (.identifier, "a"), (.integer, "1"), (.equals, "=="), (.assign, "="),
          (.illegal, "é"), (.eof, "")] ∧
      ∃ ts eof, tokenize "let a1 ===é\n" defaultFileName = ts ++ [eof] ∧
        eof.kind = .eof ∧ eof.text = "" ∧
        eof.start = byteLength "let a1 ===é\n".toList ∧ eof.stop = byteLength "let a1 ===é\n".toList ∧
        Tiling 0 "let a1 ===é\n".toList ts ∧
        (∀ t ∈ ts, t.kind = .illegal → ∃ c, t.text.toList = [c] ∧ isBlank c = false ∧
          ∀ (k : Kind) (cs : List Char), k.WrittenAs (c :: cs) → k = .illegal) ∧
        ∀ n, ∃ c d, (Cursor.ofSource "let a1 ===é\n" defaultFileName).nextTimes? n = some c ∧
          c.next? = some (sourceToken defaultFileName "let a1 ===é\n" n, d) :=
  ⟨by decide +kernel, by decide +kernel, tokenize_tiles defaultFileName (by decide +kernel)⟩

end MonkeySyntax
