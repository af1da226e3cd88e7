/-! # The system around the program

A run of the program depends on more than its source text. Its arguments are read for it, a log may
be kept while it runs, and where it is broken off this is told. All three write to the stream for errors
in ways of their own, so what they do is given with the system and not laid down here.

* `Options`: the settings of a run.
* `Output`, `Outcome`: the texts that a run prints, and the number that it ends with.
* `Request`: what the arguments of a run ask for.
* `System`: how arguments are read, and what is written besides the output of the program.
-/

namespace MonkeySyntax.Command

/-- The version of the program. -/
def programVersion : String := "0.1.0"

/-- The **options** of a run. -/
structure Options where
  /-- Whether the log is to tell more, which is written on the stream for errors. -/
  verbose : Bool
  /-- Whether the tokens of a source are listed before it is parsed. -/
  listTokens : Bool
  /-- What is printed before each line that is read. -/
  prompt : String
  /-- The file to parse; without one, lines are read. -/
  file? : Option String
  deriving DecidableEq, Repr

/-- The prompt that is printed when none is given. -/
def defaultPrompt : String := ">> "

/-- What is **printed**, to the two streams that there are. -/
structure Output where
  /-- The text on the standard stream. -/
  out : String
  /-- The text on the stream for errors. -/
  err : String
  deriving DecidableEq, Repr

/-- Outputs one behind the other. -/
instance : Append Output := ⟨fun a b => ⟨a.out ++ b.out, a.err ++ b.err⟩⟩

/-- What a run prints and the **number that it ends with**: 0 for success, 1 for an error, 2 for
arguments that are refused, 101 for a run that is broken off. -/
structure Outcome where
  /-- The number that the run ends with. -/
  code : Nat
  /-- What the run printed. -/
  output : Output
  deriving DecidableEq, Repr

/-- The outcome of a run that has printed something before. -/
def Outcome.after (before : Output) (outcome : Outcome) : Outcome :=
  ⟨outcome.code, before ++ outcome.output⟩

/-- The end of a run that failed: the reason is the last line on the stream for errors. -/
def Outcome.failed (before : Output) (reason : String) : Outcome :=
  ⟨1, before ++ ⟨"", "Error: " ++ reason ++ "\n"⟩⟩

/-- What the arguments **ask for**. -/
inductive Request where
  /-- A run with these options. -/
  | run (options : Options)
  /-- No run at all, but this outcome: a text about the program, or that they are refused. -/
  | done (outcome : Outcome)
  deriving DecidableEq, Repr

/-- **The system around the program**, of which nothing is known but what it is given. -/
structure System where
  /-- What the arguments of a run ask for. -/
  request : List String → Request
  /-- What the log writes on the stream for errors while a source is parsed: whether it is to tell more,
  how many lines have been read before, and the name and the text of the source. -/
  log : Bool → Nat → String → String → String
  /-- What is written on the stream for errors where a run is broken off. -/
  abortText : String

/-- The end of a run that is **broken off**. -/
def System.abort (system : System) (before : Output) : Outcome :=
  ⟨101, before ++ ⟨"", system.abortText⟩⟩

end MonkeySyntax.Command
