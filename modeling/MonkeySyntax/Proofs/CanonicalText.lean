import MonkeySyntax.Proofs.Tree.UniqueReading

/-! # The canonical text identifies the tree

Two programs have one source text exactly when they are alike. This holds for the programs of any two
sources, whatever is wrong with them and however deep their expressions are nested, also where the text
could not be read again.

* `sound_parseAs` — the nodes of the program of any source are sound.
* `Program.alike_of_toSource` — programs of sound nodes with one source text are alike.
* **`toSource_eq_iff_alike`** — both together, for two sources. -/

namespace MonkeySyntax

/-- **The program of any source is put together from sound nodes.** -/
theorem sound_parseAs (file source : String) :
    ∀ item ∈ (parseAs file source).program.items, item.Sound := by
  obtain ⟨ts, t, q, -, -, -, hspelt, hway, -⟩ := exists_gathers file source
  intro item hitem
  rcases hway.of_mem item hitem with rfl | ⟨i, hof⟩
  · exact Item.sound_absent
  · exact hof.sound (hspelt i hof.kind_ne_eof)

/-- A program with a blank behind it is written like the statements of a block. -/
theorem join_spacedAll (s : Statement) (ss : List Statement) :
    String.join (Statement.spacedAll (s :: ss)) = (Program.mk (s :: ss)).toSource ++ " " := by
  induction ss generalizing s with
  | nil => simp [Statement.spacedAll, Program.toSource]
  | cons r ss ih =>
    have hcons : (Program.mk (s :: r :: ss)).toSource =
        s.terminated ++ " " ++ (Program.mk (r :: ss)).toSource := String.intercalate_cons_cons
    rw [Statement.spacedAll, String.join_cons, ih, hcons, ← String.append_assoc]

/-- Only the program without statements has an empty text. -/
theorem toSource_ne_empty {s : Statement} (hs : ∀ item ∈ s.items, item.Sound) (ss : List Statement) :
    (Program.mk (s :: ss)).toSource ≠ "" := by
  intro hempty
  obtain ⟨c, cs, hc, -⟩ := s.exists_head hs
  rw [Program.toSource, List.map_cons, intercalate_cons] at hempty
  have hnil := congrArg String.toList hempty
  rw [String.toList_append, hc] at hnil
  exact absurd hnil (by simp)

/-- **Programs of sound nodes with one source text are alike.** -/
theorem Program.alike_of_toSource {p q : Program} (hp : ∀ item ∈ p.items, item.Sound)
    (hq : ∀ item ∈ q.items, item.Sound) (h : p.toSource = q.toSource) : p.alike q = true := by
  obtain ⟨ss⟩ := p
  obtain ⟨rs⟩ := q
  have hss := Statement.allUnique ss hp
  have hrs := Statement.allUnique rs hq
  cases ss with
  | nil =>
    cases rs with
    | nil => rfl
    | cons r rs => exact absurd h.symm (toSource_ne_empty (hrs r List.mem_cons_self).1 rs)
  | cons s ss =>
    cases rs with
    | nil => exact absurd h (toSource_ne_empty (hss s List.mem_cons_self).1 ss)
    | cons r rs =>
      have hspaced : String.join (Statement.spacedAll (s :: ss)) =
          String.join (Statement.spacedAll (r :: rs)) := by
        rw [join_spacedAll, join_spacedAll, h]
      -- the brace that may close a block stands behind both texts
      exact (unique_statements hss (fun r hr => (hrs r hr).1)
        (congrArg (·.toList ++ ['}']) hspaced)).1

/-- **The canonical text identifies the tree.** The programs of any two sources, with or without
diagnostics, have one source text exactly when they are alike: when they have the same nodes with the
same values, the same children missing, and tokens that agree in kind and text. -/
theorem toSource_eq_iff_alike (file file' a b : String) :
    (parseAs file a).program.toSource = (parseAs file' b).program.toSource ↔
      (parseAs file a).program.alike (parseAs file' b).program = true :=
  ⟨Program.alike_of_toSource (sound_parseAs file a) (sound_parseAs file' b), Program.toSource_eq⟩

/-- A missing operand is printed as nothing, which makes the text unreadable for the parser. -/
example : (parse "-; a *").program.toSource = "(-); (a * );" := by decide +kernel

end MonkeySyntax
