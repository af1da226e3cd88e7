import MonkeySyntax.Command.Session
import MonkeySyntax.Proofs.Command.Transcript
import MonkeySyntax.Proofs.Spacing
import MonkeySyntax.Proofs.Token.Tiling

/-! # Lines and files

A text may be read as a line or as the content of a file. A line loses the white space at its end before
it is read, while a file is read as it is. The two agree about a text unless it ends with white space
that is no blank between tokens: as a part of a file that is illegal, and at the end of a line it is
never seen.

* `content_tokensFrom_append` — blanks at the end make no difference to what the tokens say.
* `exists_token_of_mem` — every other character is in a token.
* `blank_of_accepted` — so an accepted text has no white space but blanks.
* **`accepted_iff_trimmed`** — whether a text is accepted, told by what is left of it as a line.
* `System.LineShows` — the answer to a line is a tree.
* **`line_and_file_agree_iff`** — when a file is accepted and what is then printed, told by the answer to
  its text as a line. -/

namespace MonkeySyntax

/-! ### Blanks at the end -/

/-- What tokens say does not depend on the name of the source, nor on the place of their text in it. -/
theorem content_tokensFrom (file file' : String) (offset offset' : Nat) (cs : List Char) :
    (tokensFrom file offset cs).map Token.content =
      (tokensFrom file' offset' cs).map Token.content := by
  fun_induction tokensFrom file offset cs generalizing offset' with
  | case1 offset =>
    rw [tokensFrom_nil]
    rfl
  | case2 offset c cs hblank ih => rw [tokensFrom_blank hblank, ← ih]
  | case3 offset c cs hblank ih =>
    rw [tokensFrom_lexeme (Bool.eq_false_iff.2 hblank), List.map_cons, List.map_cons, ← ih]
    rfl

/-- **Blanks at the end** make no difference to what the tokens say. -/
theorem content_tokensFrom_append {blanks : List Char} (h : ∀ c ∈ blanks, isBlank c = true)
    (file : String) (offset : Nat) (cs : List Char) :
    (tokensFrom file offset (cs ++ blanks)).map Token.content =
      (tokensFrom file offset cs).map Token.content := by
  cases blanks with
  | nil => rw [List.append_nil]
  | cons d blanks =>
    obtain ⟨hd, hblanks⟩ := List.forall_mem_cons.1 h
    obtain ⟨ts, hts, -⟩ := tokensFrom_eq_append file offset cs
    have hend := tokensFrom_blanks hblanks file (offset + byteLength cs + d.utf8Size) []
    rw [List.append_nil, tokensFrom_nil] at hend
    rw [tokensFrom_append_blank hd, hend, hts, List.dropLast_concat, List.map_append, List.map_append]
    rfl

/-! ### White space that is no blank -/

/-- **Every character but a blank is in a token.** -/
theorem exists_token_of_mem (file : String) (offset : Nat) {cs : List Char} {c : Char} (hc : c ∈ cs)
    (hblank : isBlank c = false) : ∃ t ∈ tokensFrom file offset cs, c ∈ t.text.toList := by
  fun_induction tokensFrom file offset cs with
  | case1 offset => exact absurd hc List.not_mem_nil
  | case2 offset d cs hd ih =>
    refine ih ((List.mem_cons.1 hc).resolve_left ?_)
    rintro rfl
    exact absurd hd (by simp [hblank])
  | case3 offset d cs hd ih =>
    rw [← Lexeme.append_rest d cs, List.mem_append] at hc
    rcases hc with hc | hc
    · exact ⟨_, List.mem_cons_self, by rwa [Token.ofText, String.toList_ofList]⟩
    · obtain ⟨t, ht, hmem⟩ := ih hc
      exact ⟨t, List.mem_cons_of_mem _ ht, hmem⟩

/-- **An accepted text has no white space but blanks**, since any other would be illegal. -/
theorem blank_of_accepted {file source : String} (h : (parseAs file source).diagnostics = []) {c : Char}
    (hc : c ∈ source.toList) (hwhite : isWhiteSpace c = true) : isBlank c = true := by
  by_contra hblank
  rw [Bool.not_eq_true] at hblank
  obtain ⟨n, -, hderives⟩ := (parseAs_accepts file source _).1 ⟨h, rfl⟩
  obtain ⟨t, ht, hmem⟩ := exists_token_of_mem file 0 hc hblank
  obtain ⟨ts, hts, hspelt⟩ := tokensFrom_eq_append file 0 source.toList
  rw [tokenize, hts, List.dropLast_concat] at hderives
  rw [hts, List.mem_append, List.mem_singleton] at ht
  rcases ht with ht | rfl
  · exact hderives.ne_illegal t ht ((hspelt t ht).illegal_of_isWhiteSpace hmem hwhite)
  · exact absurd hmem List.not_mem_nil

/-! ### Read as a line and as a file -/

/-- Sources whose tokens say the same are accepted alike, and their programs are shown alike. -/
theorem parseAs_agree {file file' a b : String}
    (h : (tokenize a file).map Token.content = (tokenize b file').map Token.content) :
    (parseAs file a).program.display = (parseAs file' b).program.display ∧
      ((parseAs file a).diagnostics = [] ↔ (parseAs file' b).diagnostics = []) := by
  obtain ⟨ts, t, hts, -⟩ := exists_tokenize_eq file a
  obtain ⟨us, u, hus, -⟩ := exists_tokenize_eq file' b
  have halike : List.Forall₂ (fun t u : Token => t.alike u = true) (ts ++ [t]) (us ++ [u]) := by
    rw [← hts, ← hus]
    rw [← List.forall₂_eq_eq_eq, List.forall₂_map_left_iff, List.forall₂_map_right_iff] at h
    exact h.imp fun _ _ => Token.alike_iff_content.2
  obtain ⟨hprogram, hdiagnostics⟩ := parseTokens_agree (g := .standard) id halike
  rw [← hts, ← hus, ← parseAs, ← parseAs] at hprogram hdiagnostics
  refine ⟨Program.display_eq hprogram, ?_⟩
  rw [← List.length_eq_zero_iff, hdiagnostics.length_eq, List.length_eq_zero_iff]

/-- A text without the white space at its end has the same tokens if only blanks have been cut off. -/
theorem content_tokenize_trimmed {source : String}
    (h : ∀ c ∈ source.toList.rtakeWhile isWhiteSpace, isBlank c = true) (file file' : String) :
    (tokenize source file).map Token.content =
      (tokenize (String.ofList (trimEnd source.toList)) file').map Token.content := by
  have hsplit := content_tokensFrom_append h file 0 (trimEnd source.toList)
  rw [trimEnd_append_rtakeWhile] at hsplit
  rw [tokenize, tokenize, hsplit, String.toList_ofList]
  exact content_tokensFrom file file' 0 0 _

/-- **A text is accepted** if it is accepted without the white space at its end, and this is nothing but
blanks. -/
theorem accepted_iff_trimmed (file file' source : String) :
    (parseAs file source).diagnostics = [] ↔
      (parseAs file' (String.ofList (trimEnd source.toList))).diagnostics = [] ∧
        ∀ c ∈ source.toList.rtakeWhile isWhiteSpace, isBlank c = true := by
  constructor
  · intro h
    have hblanks : ∀ c ∈ source.toList.rtakeWhile isWhiteSpace, isBlank c = true := by
      intro c hc
      have hwhite : isWhiteSpace c = true := List.mem_rtakeWhile_imp hc
      exact blank_of_accepted h ((List.rtakeWhile_suffix _ _).subset hc) hwhite
    exact ⟨(parseAs_agree (content_tokenize_trimmed hblanks file file')).2.1 h, hblanks⟩
  · rintro ⟨h, hblanks⟩
    exact (parseAs_agree (content_tokenize_trimmed hblanks file file')).2.2 h

namespace Command

/-- **A tree is shown for a line** that is read behind some others: there is an answer to it, which shows
the tree of the line without the white space at its end. -/
def System.LineShows (system : System) (options : Options) (before : Nat) (line tree : String) : Prop :=
  let source := String.ofList (trimEnd line.toList)
  ∃ answer, system.answerTo options before line = some answer ∧
    answer.output.ShowsTree options.listTokens defaultFileName source
      (system.log options.verbose before defaultFileName source) tree

/-- A tree is shown for a line that is not skipped if what is left of it is accepted. -/
theorem System.lineShows_iff {system : System} {options : Options} {before : Nat} {line tree : String}
    (h : trimEnd line.toList ≠ []) :
    system.LineShows options before line tree ↔
      (parse (String.ofList (trimEnd line.toList))).diagnostics = [] ∧
        (parse (String.ofList (trimEnd line.toList))).program.display = tree := by
  rw [LineShows, answerTo, if_neg h]
  simp only [Option.some.injEq, exists_eq_left', showsTree_evaluate_iff]
  rfl

/-- The only file, named `a`, in the directory in which paths begin. -/
def FileTree.single (text : String) : FileTree :=
  ⟨[(["a"], text.toUTF8)], []⟩

/-- Its path is one name. -/
theorem splitOn_single : "a".splitOn "/" = ["a"] := by
  unfold String.splitOn String.splitOnAux
  rw [if_neg (by decide), if_neg (by decide), if_neg (by decide)]
  unfold String.splitOnAux
  rw [if_pos (by decide)]
  decide

/-- This file is read under its name. -/
theorem FileTree.read_single (text : String) : (single text).read "a" = .ok text.toUTF8 := by
  have hstart : (single text).start "a" = [] := ite_self []
  rw [read, splitOn_single, hstart]
  rfl

/-- **A text as a line and as a file.** Let a text without line feeds be one of the lines of an input, and
let it be more than white space. In a run on these lines there is an answer to it, unless the run is broken
off before. A run on a file with this content ends with 0 exactly if this answer is a tree and the white
space at the end of the text, which is cut off a line, is nothing but blanks; and then the run on the file
prints the same tree. -/
theorem line_and_file_agree_iff {system fileSystem : System} {args fileArgs : List String}
    {options fileOptions : Options} {path text : String} {files : FileTree}
    (hargs : system.request args = .run options) (hlines : options.file? = none)
    (hfileArgs : fileSystem.request fileArgs = .run fileOptions) (hpath : fileOptions.file? = some path)
    (hread : files.read path = .ok text.toUTF8) (hsingle : SingleLine text.toList)
    (hasked : trimEnd text.toList ≠ []) :
    (∀ others earlier later, (∀ line ∈ earlier ++ later, SingleLine line.toList) →
      system.run args others (inputOf (earlier ++ text :: later)) =
        (system.transcript options.prompt (system.answersTo options 0 earlier ++
          system.answerTo options earlier.length text ::
            system.answersTo options (earlier.length + 1) later)).after ⟨banner, ""⟩) ∧
      ∀ before input,
        ((fileSystem.run fileArgs files input).code = 0 ↔
          (∃ tree, system.LineShows options before text tree) ∧
            ∀ c ∈ text.toList.rtakeWhile isWhiteSpace, isBlank c = true) ∧
        ((fileSystem.run fileArgs files input).code = 0 →
          ∃ tree, system.LineShows options before text tree ∧
            (fileSystem.run fileArgs files input).output.ShowsTree fileOptions.listTokens (fileName path)
              text (fileSystem.log fileOptions.verbose 0 (fileName path) text) tree) := by
  refine ⟨fun others earlier later hothers => ?_, fun before input => ?_⟩
  · have hall : ∀ line ∈ earlier ++ text :: later, SingleLine line.toList := by
      rw [List.forall_mem_append] at hothers ⊢
      exact ⟨hothers.1, List.forall_mem_cons.2 ⟨hsingle, hothers.2⟩⟩
    rw [System.run_inputOf hargs hlines hall, System.answersTo_append, Nat.zero_add, System.answersTo]
  · have hcode := System.code_run_file hfileArgs hpath hread input
    have hline : (∃ tree, system.LineShows options before text tree) ↔
        (parse (String.ofList (trimEnd text.toList))).diagnostics = [] := by
      simp only [System.lineShows_iff hasked, exists_and_left, exists_eq', and_true]
    have haccepted := accepted_iff_trimmed (fileName path) defaultFileName text
    refine ⟨hcode.trans (haccepted.trans (and_congr_left' hline.symm)), fun h => ?_⟩
    obtain ⟨htrimmed, hblanks⟩ := haccepted.1 (hcode.1 h)
    have hcontent := content_tokenize_trimmed hblanks (fileName path) defaultFileName
    refine ⟨_, (System.lineShows_iff hasked).2 ⟨htrimmed, rfl⟩, ?_⟩
    rw [System.output_run_file hfileArgs hpath hread input (hcode.1 h)]
    exact showsTree_evaluate_iff.2 ⟨hcode.1 h, (parseAs_agree hcontent).1⟩

/-- A negation with blanks behind it is a line and a file with the same tree, whatever is listed before
it. -/
theorem line_and_file_agree_iff_negation :
    run ["--prompt", "? "] (.single "") (inputOf ["-x \t"]) = ⟨0, ⟨banner ++ "? (-x)\n? ", ""⟩⟩ ∧
      shell.LineShows ⟨false, false, "? ", none⟩ 0 "-x \t" "(-x)" ∧
      (run ["-t", "-f", "a"] (.single "-x \t") .empty).code = 0 ∧
      (run ["-t", "-f", "a"] (.single "-x \t") .empty).output =
        ⟨listing (fileName "a") "-x \t" ++ "(-x)\n", ""⟩ := by
  let options : Options := ⟨false, false, "? ", none⟩
  have hargs : shell.request ["--prompt", "? "] = .run options := by decide +kernel
  have hfileArgs : shell.request ["-t", "-f", "a"] = .run ⟨false, true, defaultPrompt, some "a"⟩ := by
    decide +kernel
  have hasked : trimEnd "-x \t".toList ≠ [] := by decide +kernel
  have hshown : shell.LineShows options 0 "-x \t" "(-x)" :=
    (System.lineShows_iff hasked).2 (by decide +kernel)
  obtain ⟨hrun, hfile⟩ := line_and_file_agree_iff hargs rfl hfileArgs rfl
    (FileTree.read_single "-x \t") (by decide +kernel) hasked
  obtain ⟨hiff, hsame⟩ := hfile 0 .empty
  have hblanks : ("-x \t".toList.rtakeWhile isWhiteSpace).all isBlank = true := by decide +kernel
  have hcode := hiff.2 ⟨⟨_, hshown⟩, List.all_eq_true.1 hblanks⟩
  obtain ⟨tree, htree, houtput⟩ := hsame hcode
  obtain rfl : "(-x)" = tree :=
    ((System.lineShows_iff hasked).1 hshown).2.symm.trans ((System.lineShows_iff hasked).1 htree).2
  exact ⟨(hrun _ [] [] (List.forall_mem_nil _)).trans (by decide +kernel), hshown, hcode, houtput⟩

/-- With a no-break space at its end a text is a line with a tree, but not a file. -/
theorem line_and_file_differ :
    SingleLine "x\u00a0".toList ∧ trimEnd "x\u00a0".toList ≠ [] ∧
      run [] (.single "") (inputOf ["x\u00a0"]) = ⟨0, ⟨banner ++ ">> x\n>> ", ""⟩⟩ ∧
      shell.LineShows ⟨false, false, defaultPrompt, none⟩ 0 "x\u00a0" "x" ∧
      (FileTree.single "x\u00a0").read "a" = .ok "x\u00a0".toUTF8 ∧
      (run ["--file", "a"] (.single "x\u00a0") .empty).code = 1 := by
  have hargs : shell.request ["--file", "a"] = .run ⟨false, false, defaultPrompt, some "a"⟩ := by
    decide +kernel
  have hasked : trimEnd "x\u00a0".toList ≠ [] := by decide +kernel
  have hfaulty : (evaluate false (fileName "a") "x\u00a0" "").verdict = .faulty := by
    rw [fileName, splitOn_single]
    decide +kernel
  refine ⟨by decide +kernel, hasked, by decide +kernel,
    (System.lineShows_iff hasked).2 (by decide +kernel), FileTree.read_single _, ?_⟩
  rw [run, System.run_file hargs rfl (FileTree.read_single _), System.concludeFile, shell]
  simp only [hfaulty]
  rfl

end Command

end MonkeySyntax
