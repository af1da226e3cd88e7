import MonkeySyntax.Command.Run
import MonkeySyntax.Proofs.Text.Bytes
import MonkeySyntax.Proofs.Text.SingleLine
import MonkeySyntax.Proofs.Text.WhiteSpace

/-! # What a run prints

A run on lines prints the prompt and an answer for each of them, up to the first answer with a report
that cannot be made. No answer depends on the other lines, but for how many there are before it. A run on
a file prints what the text of the file gives.

* **`Output.ShowsTree`** — the output is the text of a tree; `showsTree_evaluate_iff` says when.
* `inputOf lines`, `System.answerTo` — lines as an input, and what one of them gives.
* **`System.run_inputOf`** — all that a run on lines prints, as a `System.transcript`.
* **`System.run_file`** — all that a run on a file prints; `System.code_run_file` — when it ends with
  0. -/

namespace MonkeySyntax.Command

/-! ### One source -/

/-- A text is read from its own bytes. -/
theorem textOf_toUTF8 (text : String) : textOf text.toUTF8 = .ok text := by
  rw [textOf, fromUTF8?_toUTF8]

theorem Output.append_assoc (a b c : Output) : a ++ b ++ c = a ++ (b ++ c) :=
  congrArg₂ Output.mk (String.append_assoc ..) (String.append_assoc ..)

/-- What is printed before the rest of a run. -/
theorem Outcome.after_after (outcome : Outcome) (a b : Output) :
    (outcome.after b).after a = outcome.after (a ++ b) :=
  congrArg (Outcome.mk _) (Output.append_assoc a b _).symm

/-- **The output shows a tree** of a source: the listing of the tokens, where that is asked for, then
the text of the tree on a line, and no report beside what is logged. -/
def Output.ShowsTree (listTokens : Bool) (file source logged tree : String) (output : Output) : Prop :=
  output = ⟨(if listTokens then listing file source else "") ++ (tree ++ "\n"), logged⟩

/-- **A tree is shown for a source exactly if nothing is wrong with it**, and it is the tree of its
program. -/
theorem showsTree_evaluate_iff {listTokens : Bool} {file source logged tree : String} :
    (evaluate listTokens file source logged).output.ShowsTree listTokens file source logged tree ↔
      (parseAs file source).diagnostics = [] ∧ (parseAs file source).program.display = tree := by
  have happend (a b : Output) : a ++ b = ⟨a.out ++ b.out, a.err ++ b.err⟩ := rfl
  rw [Output.ShowsTree, evaluate, judge]
  cases (parseAs file source).diagnostics with
  | nil => simp [happend]
  | cons d ds =>
    refine iff_of_false (fun h => ?_) (by simp)
    have hlength := congrArg (·.out.length) h
    simp [happend] at hlength

/-- Nothing is wrong with a source exactly if it has no diagnostics. -/
theorem verdict_evaluate_eq_clean_iff {listTokens : Bool} {file source logged : String} :
    (evaluate listTokens file source logged).verdict = .clean ↔
      (parseAs file source).diagnostics = [] := by
  rw [evaluate, judge]
  cases (parseAs file source).diagnostics with
  | nil => simp
  | cons d ds =>
    simp only [List.isEmpty_cons, Bool.false_eq_true, if_false, reduceCtorEq, iff_false]
    split <;> simp

/-! ### Lines -/

/-- The **input that holds the given lines**, each with a line feed behind it. -/
def inputOf (lines : List String) : ByteArray :=
  (String.join (lines.map (· ++ "\n"))).toUTF8

/-- The bytes of a line with its line feed. -/
theorem toUTF8_line (line : String) :
    (line ++ "\n").toUTF8 = (bytesOf line.toList ++ [10]).toByteArray := by
  rw [toUTF8_eq, String.toList_append, bytesOf_append]
  rfl

/-- **The lines of an input** are those that it holds. -/
theorem linesOfInput_inputOf {lines : List String} (h : ∀ line ∈ lines, SingleLine line.toList) :
    linesOfInput (inputOf lines) = lines.map fun line => bytesOf line.toList ++ [10] := by
  have hbytes : (inputOf lines).toList = (lines.map (bytesOf ·.toList)).flatMap (· ++ [10]) := by
    rw [inputOf, toUTF8_eq, toList_toByteArray, String.toList_join]
    simp only [bytesOf, List.flatMap_map, List.flatMap_assoc, String.toList_append,
      List.flatMap_append]
    rfl
  have hno : ∀ bytes ∈ lines.map (bytesOf ·.toList), ∀ b ∈ bytes, (b == 10) = false := by
    intro bytes hbytes b hb
    obtain ⟨line, hline, rfl⟩ := List.mem_map.1 hbytes
    refine beq_eq_false_iff_ne.2 fun heq => h line hline ?_
    exact mem_bytesOf.1 (heq ▸ hb)
  rw [linesOfInput, hbytes, cutBehind_flatMap (by decide) hno, List.map_map]
  rfl

namespace System

variable {system : System} {options : Options}

/-- **The answer to a line** that is read with its line feed behind some others: what its text gives
without the white space at its end, and nothing if nothing else is in it. -/
def answerTo (system : System) (options : Options) (before : Nat) (line : String) : Option Evaluation :=
  let source := String.ofList (trimEnd line.toList)
  if trimEnd line.toList = [] then
    none
  else
    some (evaluate options.listTokens defaultFileName source
      (system.log options.verbose before defaultFileName source))

/-- Every line has its answer. -/
theorem evaluateLine_eq_answerTo (system : System) (options : Options) (before : Nat) (line : String) :
    system.evaluateLine options before (line ++ "\n").toUTF8 =
      .ok (system.answerTo options before line) := by
  have htrim : trimEnd (line ++ "\n").toList = trimEnd line.toList := by
    rw [String.toList_append, trimEnd_append_eq, if_pos (by decide)]
  rw [evaluateLine, textOf_toUTF8]
  show (if (trimEnd (line ++ "\n").toList).isEmpty then _ else _) = _
  rw [htrim, answerTo]
  simp only [List.isEmpty_iff]
  split <;> rfl

/-- The answers to lines that are read behind some others. -/
def answersTo (system : System) (options : Options) (before : Nat) :
    List String → List (Option Evaluation)
  | [] => []
  | line :: lines => system.answerTo options before line :: system.answersTo options (before + 1) lines

theorem answersTo_append (before : Nat) (lines more : List String) :
    system.answersTo options before (lines ++ more) =
      system.answersTo options before lines ++ system.answersTo options (before + lines.length) more := by
  induction lines generalizing before with
  | nil => rfl
  | cons line lines ih =>
    rw [List.cons_append, answersTo, ih, List.length_cons, Nat.add_right_comm, Nat.add_assoc]
    rfl

/-- **What a run on lines prints** from the first prompt on, with these answers: the prompt before each
of them, and once more before the end is found, unless the run is broken off by an answer with a report
that cannot be made. -/
def transcript (system : System) (prompt : String) : List (Option Evaluation) → Outcome
  | [] => ⟨0, ⟨prompt, ""⟩⟩
  | none :: answers => (system.transcript prompt answers).after ⟨prompt, ""⟩
  | some answer :: answers =>
    if answer.verdict = .unreportable then
      system.abort (⟨prompt, ""⟩ ++ answer.output)
    else
      (system.transcript prompt answers).after (⟨prompt, ""⟩ ++ answer.output)

/-- The rounds of a run on lines. -/
theorem evaluateLines_eq (before : Nat) (printed : Output) (lines : List String) :
    system.evaluateLines options before printed
        (lines.map fun line => bytesOf line.toList ++ [10]) =
      (system.transcript options.prompt (system.answersTo options before lines)).after printed := by
  induction lines generalizing before printed with
  | nil => rfl
  | cons line lines ih =>
    rw [List.map_cons, evaluateLines, ← toUTF8_line, evaluateLine_eq_answerTo, answersTo]
    rcases system.answerTo options before line with _ | answer
    · simp only [ih, transcript, Outcome.after_after]
    · simp only [ih, transcript]
      split
      · simp only [abort, Outcome.after, Output.append_assoc]
      · simp only [Outcome.after_after, Output.append_assoc]

/-- **A run on lines** prints a text about itself and then the prompt and the answer for each of
them. -/
theorem run_inputOf {args : List String} (hargs : system.request args = .run options)
    (hfile : options.file? = none) {lines : List String} (h : ∀ line ∈ lines, SingleLine line.toList)
    (files : FileTree) :
    system.run args files (inputOf lines) =
      (system.transcript options.prompt (system.answersTo options 0 lines)).after ⟨banner, ""⟩ := by
  rw [run, hargs]
  simp only [hfile]
  rw [linesOfInput_inputOf h, evaluateLines_eq]

/-! ### A file -/

/-- A run on a file **ends with 0** exactly if nothing is wrong with its text. -/
theorem code_concludeFile (path : String) (evaluation : Evaluation) :
    (system.concludeFile path evaluation).code = 0 ↔ evaluation.verdict = .clean := by
  rw [concludeFile]
  cases evaluation.verdict with
  | clean => simp
  | faulty => simp [Outcome.failed]
  | unreportable => simp [abort]

section File

variable {args : List String} {path text : String} {files : FileTree}

/-- **A run on a file** that holds a text is a run on this text, whatever the input is. -/
theorem run_file (hargs : system.request args = .run options) (hfile : options.file? = some path)
    (hread : files.read path = .ok text.toUTF8) (input : ByteArray) :
    system.run args files input = system.concludeFile path (evaluate options.listTokens (fileName path) text
      (system.log options.verbose 0 (fileName path) text)) := by
  have htext : (Except.ok text.toUTF8 >>= textOf) = .ok text := textOf_toUTF8 text
  rw [run, hargs]
  simp only [hfile, evaluateFile, hread, htext]

/-- Such a run **ends with 0** exactly if nothing is wrong with the text. -/
theorem code_run_file (hargs : system.request args = .run options) (hfile : options.file? = some path)
    (hread : files.read path = .ok text.toUTF8) (input : ByteArray) :
    (system.run args files input).code = 0 ↔ (parseAs (fileName path) text).diagnostics = [] := by
  rw [run_file hargs hfile hread, code_concludeFile, verdict_evaluate_eq_clean_iff]

/-- It prints what the text gives and nothing else then. -/
theorem output_run_file (hargs : system.request args = .run options) (hfile : options.file? = some path)
    (hread : files.read path = .ok text.toUTF8) (input : ByteArray)
    (hclean : (parseAs (fileName path) text).diagnostics = []) :
    (system.run args files input).output = (evaluate options.listTokens (fileName path) text
      (system.log options.verbose 0 (fileName path) text)).output := by
  rw [run_file hargs hfile hread, concludeFile, verdict_evaluate_eq_clean_iff.2 hclean]

end File

end System

end MonkeySyntax.Command
