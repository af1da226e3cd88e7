import MonkeySyntax.Command.Arguments
import MonkeySyntax.Command.Run

/-! # Sessions in a shell

The program as it is run from a shell, where no log is kept.

* `shell`: the system that it runs in.
* `run`: a run with the given arguments, files and input.
-/

namespace MonkeySyntax.Command

/-- The **shell** reads arguments by the names of the options. It keeps no log. -/
def shell : System where
  request := Request.ofArguments
  log _ _ _ _ := ""
  abortText := ""

/-- A **run in the shell**. -/
def run (args : List String) (files : FileTree) (input : ByteArray) : Outcome :=
  shell.run args files input

end MonkeySyntax.Command
