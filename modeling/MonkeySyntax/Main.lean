import MonkeySyntax.Command.Session

/-! # The command-line program

Reads files and lines, and prints what the library says about them. -/

namespace MonkeySyntax.Command

/-- Prints an output. -/
def Output.print (output : Output) : IO Unit := do
  IO.print output.out
  IO.eprint output.err
  (← IO.getStdout).flush

/-- Prints the output of a run and gives the number that it ends with. -/
def Outcome.finish (outcome : Outcome) : IO UInt32 := do
  outcome.output.print
  pure outcome.code.toUInt32

/-- Why the system could not read a file. -/
def readErrorOf (e : IO.Error) : ReadError :=
  match e with
  | .noFileOrDirectory .. => .notFound
  | .inappropriateType _ code _ =>
    -- the system gives the code with either sign
    if code = 21 ∨ -code = 21 then .isADirectory else .notADirectory
  | e => .other (toString e)

/-- The content of a file. -/
def readFile (path : String) : IO (Except ReadError ByteArray) := do
  try
    pure (.ok (← IO.FS.readBinFile path))
  catch e =>
    pure (.error (readErrorOf e))

/-- The next line of the input with the line feed that ends it; empty at the end. -/
partial def readLine (input : IO.FS.Stream) (line : ByteArray) : IO ByteArray := do
  let byte ← input.read 1
  if byte.isEmpty then
    pure line
  else if byte.data == #[10] then
    pure (line ++ byte)
  else
    readLine input (line ++ byte)

/-- Answers lines until the input ends, cannot be read or cannot be answered; so many have been answered
before. -/
partial def converse (options : Options) (input : IO.FS.Stream) (before : Nat) : IO UInt32 := do
  Output.print ⟨options.prompt, ""⟩
  let line ← readLine input .empty
  if line.isEmpty then
    pure 0
  else
    match shell.evaluateLine options before line with
    | .error e => (Outcome.failed ⟨"", ""⟩ e.describe).finish
    | .ok none => converse options input (before + 1)
    | .ok (some evaluation) =>
      if evaluation.verdict = .unreportable then
        (shell.abort evaluation.output).finish
      else do
        evaluation.output.print
        converse options input (before + 1)

/-- Runs the program on the files and the input of the system. -/
def runProgram (args : List String) : IO UInt32 := do
  match shell.request args with
  | .done outcome => outcome.finish
  | .run options =>
    match options.file? with
    | some path => (shell.evaluateFile options path (← readFile path)).finish
    | none => do
      Output.print ⟨banner, ""⟩
      converse options (← IO.getStdin) 0

end MonkeySyntax.Command

/-- The entry point of the program. -/
def main (args : List String) : IO UInt32 :=
  MonkeySyntax.Command.runProgram args
