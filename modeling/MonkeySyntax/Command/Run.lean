import MonkeySyntax.Command.FileTree
import MonkeySyntax.Command.System
import MonkeySyntax.Diagnostic.Report
import MonkeySyntax.Parsing.Program
import MonkeySyntax.Tree.Printer

/-! # Runs of the program

What the program prints. A run parses one file, or reads lines and parses each of them. It is broken
off where a report on a source cannot be made.

* `evaluate`: one source: the listing of its tokens, and its tree or its reports.
* `System.evaluateFile`: a run on a file.
* `System.evaluateLine`, `System.evaluateLines`: a run on lines.
* `System.run`: a run from its arguments, over given files and input.
-/

namespace MonkeySyntax.Command

/-- The text before the first prompt. -/
def banner : String :=
  "Monkey parser v" ++ programVersion ++
    "\nType a program to see its tree, or an empty line to skip\n\n"

/-! ### One source -/

/-- A line of a token listing. -/
def listed (t : Token) : String :=
  t.kind.label ++ " " ++ quoted t.text ++ "\n"

/-- The token listing of a source. -/
def listing (file source : String) : String :=
  String.join ((tokenize source file).map listed)

/-- What is **found out about a source**. -/
inductive Verdict where
  /-- Nothing is wrong with it. -/
  | clean
  /-- Something is wrong with it, and all of that is reported. -/
  | faulty
  /-- Something is wrong with it that cannot be reported. -/
  | unreportable
  deriving DecidableEq, Repr

/-- What one source **gives**. -/
structure Evaluation where
  /-- What is printed. -/
  output : Output
  /-- What is found out about it. -/
  verdict : Verdict
  deriving DecidableEq, Repr

/-- The tree of a program, or the reports on what is wrong with its source, up to the first one that
cannot be made. -/
def judge (source : String) (parsed : Parsed) : Evaluation :=
  let reportable (d : Diagnostic) : Bool := (d.report? source).isSome
  let reports := (parsed.diagnostics.takeWhile reportable).map (·.report source ++ "\n\n")
  if parsed.diagnostics.isEmpty then
    ⟨⟨parsed.program.display ++ "\n", ""⟩, .clean⟩
  else
    ⟨⟨"", String.join reports⟩, if parsed.diagnostics.all reportable then .faulty else .unreportable⟩

/-- Parses **one source** and prints its tree or the reports on it, behind the listing of its tokens
where that is asked for and behind what is logged. -/
def evaluate (listTokens : Bool) (file source logged : String) : Evaluation :=
  let judgement := judge source (parseAs file source)
  let listed := if listTokens then listing file source else ""
  ⟨⟨listed, logged⟩ ++ judgement.output, judgement.verdict⟩

/-- The text of some bytes. -/
def textOf (bytes : ByteArray) : Except ReadError String :=
  match String.fromUTF8? bytes with
  | some text => .ok text
  | none => .error .invalidText

/-- The lines of an input, each with the line feed that ends it. -/
def linesOfInput (input : ByteArray) : List (List UInt8) :=
  cutBehind (· == 10) input.toList

namespace System

/-! ### A file -/

/-- The **end of a run on a file** whose text gives this. -/
def concludeFile (system : System) (path : String) (evaluation : Evaluation) : Outcome :=
  match evaluation.verdict with
  | .clean => ⟨0, evaluation.output⟩
  | .faulty => .failed evaluation.output (quoted ("failed to parse " ++ path))
  | .unreportable => system.abort evaluation.output

/-- A **run on a file**, given what reading it gave. -/
def evaluateFile (system : System) (options : Options) (path : String)
    (content : Except ReadError ByteArray) : Outcome :=
  match content >>= textOf with
  | .error e => .failed ⟨"", ""⟩ e.describe
  | .ok source =>
    let logged := system.log options.verbose 0 (fileName path) source
    system.concludeFile path (evaluate options.listTokens (fileName path) source logged)

/-! ### Lines -/

/-- What **one line** gives that is read behind some others; nothing where it holds white space
only. -/
def evaluateLine (system : System) (options : Options) (before : Nat) (line : ByteArray) :
    Except ReadError (Option Evaluation) := do
  let source := trimEnd (← textOf line).toList
  if source.isEmpty then
    pure none
  else
    let logged := system.log options.verbose before defaultFileName (String.ofList source)
    pure (some (evaluate options.listTokens defaultFileName (String.ofList source) logged))

/-- A **run on lines** behind some others, and behind what has been printed. The prompt is printed before
each line and before the end of the input is found. -/
def evaluateLines (system : System) (options : Options) (before : Nat) (printed : Output) :
    List (List UInt8) → Outcome
  | [] => ⟨0, printed ++ ⟨options.prompt, ""⟩⟩
  | line :: lines =>
    let printed := printed ++ ⟨options.prompt, ""⟩
    match system.evaluateLine options before line.toByteArray with
    | .error e => .failed printed e.describe
    | .ok none => system.evaluateLines options (before + 1) printed lines
    | .ok (some evaluation) =>
      if evaluation.verdict = .unreportable then
        system.abort (printed ++ evaluation.output)
      else
        system.evaluateLines options (before + 1) (printed ++ evaluation.output) lines

/-! ### A whole run -/

/-- A **run of the program** with the given arguments, files and input. -/
def run (system : System) (args : List String) (files : FileTree) (input : ByteArray) : Outcome :=
  match system.request args with
  | .done outcome => outcome
  | .run options =>
    match options.file? with
    | some path => system.evaluateFile options path (files.read path)
    | none => system.evaluateLines options 0 ⟨banner, ""⟩ (linesOfInput input)

end System

end MonkeySyntax.Command
