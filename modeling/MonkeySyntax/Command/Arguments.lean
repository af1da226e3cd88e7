import MonkeySyntax.Command.System

/-! # A reader of arguments

The options of a run by their names, as a shell hands them over. Nothing that is said about runs depends
on this reader: the way in which arguments are read is given with the system.

* `OptionName`, `Given`: the options by their names, and what they have been given so far.
* `Request.ofArguments`: the request that the arguments make.

Arguments are read in order. The first one that asks for a text about the program or that cannot be
understood decides, so nothing behind it is looked at.
-/

namespace MonkeySyntax.Command

/-- What is done **instead of a run**. -/
inductive Notice where
  /-- An overview of the options is asked for, which is worded elsewhere. -/
  | help
  /-- The version of the program is asked for. -/
  | version
  /-- The arguments cannot be understood. -/
  | refusal
  deriving DecidableEq, Repr

/-- The outcome without a run. -/
def Notice.outcome : Notice → Outcome
  | .help => ⟨0, ⟨"", ""⟩⟩
  | .version => ⟨0, ⟨"monkey " ++ programVersion ++ "\n", ""⟩⟩
  | .refusal => ⟨2, ⟨"", ""⟩⟩

/-- An option that is on or off. -/
inductive Switch where
  /-- Asks for a log. -/
  | verbose
  /-- Asks for a listing of tokens. -/
  | tokens
  deriving DecidableEq, Repr

/-- An option with a value. -/
inductive Setting where
  /-- The prompt. -/
  | prompt
  /-- The file. -/
  | file
  deriving DecidableEq, Repr

/-- An **option** that an argument may name. -/
inductive OptionName where
  /-- An option that is on or off. -/
  | switch (s : Switch)
  /-- An option with a value. -/
  | setting (s : Setting)
  /-- An option that ends the reading of arguments. -/
  | announce (n : Notice)
  deriving DecidableEq, Repr

/-- The option with a long name. -/
def OptionName.ofLong? : String → Option OptionName
  | "verbose" => some (.switch .verbose)
  | "tokens" => some (.switch .tokens)
  | "prompt" => some (.setting .prompt)
  | "file" => some (.setting .file)
  | "help" => some (.announce .help)
  | "version" => some (.announce .version)
  | _ => none

/-- The option with a short name. -/
def OptionName.ofShort? : Char → Option OptionName
  | 'v' => some (.switch .verbose)
  | 't' => some (.switch .tokens)
  | 'f' => some (.setting .file)
  | 'h' => some (.announce .help)
  | 'V' => some (.announce .version)
  | _ => none

/-- The options **given so far**. -/
structure Given where
  /-- Whether a log was asked for. -/
  verbose : Bool
  /-- Whether a listing of tokens was asked for. -/
  tokens : Bool
  /-- The prompt, if it was given. -/
  prompt? : Option String
  /-- The file, if it was given. -/
  file? : Option String
  deriving DecidableEq, Repr

namespace Given

/-- Nothing is given before the first argument. -/
def nothing : Given :=
  ⟨false, false, none, none⟩

/-- Turns a switch on; no switch is given twice. -/
def turnOn? (g : Given) : Switch → Option Given
  | .verbose => if g.verbose then none else some { g with verbose := true }
  | .tokens => if g.tokens then none else some { g with tokens := true }

/-- Gives a setting its value. No setting is given twice, and the name of a file is not empty. -/
def assign? (g : Given) (value : String) : Setting → Option Given
  | .prompt => if g.prompt?.isSome then none else some { g with prompt? := some value }
  | .file =>
    if g.file?.isSome || value.isEmpty then none else some { g with file? := some value }

/-- The run that was asked for. -/
def request (g : Given) : Request :=
  .run ⟨g.verbose, g.tokens, g.prompt?.getD defaultPrompt, g.file?⟩

end Given

/-- An argument **as it is written**. -/
inductive Argument where
  /-- The sign that no option follows. -/
  | endOfOptions
  /-- A long name, with the value after `=` if there is one. -/
  | long (name : String) (value? : Option String)
  /-- Short names without blanks between them, of which the last one may have a value. -/
  | bundle (names : List Char)
  /-- Any other text. -/
  | plain (text : String)
  deriving DecidableEq, Repr

/-- Parts a text at its first `=`. -/
def splitAtEquals (text : List Char) : String × Option String :=
  let value? := match text.dropWhile (· != '=') with
    | [] => none
    | _ :: value => some (String.ofList value)
  (String.ofList (text.takeWhile (· != '=')), value?)

/-- How an argument is written. A minus sign by itself is a plain text. -/
def Argument.ofText (text : String) : Argument :=
  match text.toList with
  | ['-', '-'] => .endOfOptions
  | '-' :: '-' :: rest =>
    let (name, value?) := splitAtEquals rest
    .long name value?
  | '-' :: c :: rest => .bundle (c :: rest)
  | _ => .plain text

/-- What is known behind an argument. -/
inductive Outlook where
  /-- The options that are given now. -/
  | given (g : Given)
  /-- The options that are given now, and a setting whose value is the next argument. -/
  | awaiting (g : Given) (s : Setting)
  /-- A text about the program is printed, whatever follows. -/
  | decided (n : Notice)

/-- The outlook behind an option that may have been refused. -/
def Outlook.ofGiven? : Option Given → Outlook
  | some g => .given g
  | none => .decided .refusal

/-- The value of a short option that is written behind its name, with or without `=`. -/
def attachedValue : List Char → String
  | '=' :: value => String.ofList value
  | value => String.ofList value

/-- Reads short names that are written together. What follows an option with a value is its
value. -/
def readBundle (g : Given) : List Char → Outlook
  | [] => .given g
  | c :: rest =>
    match OptionName.ofShort? c with
    | none => .decided .refusal
    | some (.announce n) => .decided n
    | some (.switch s) =>
      match g.turnOn? s with
      | some g => readBundle g rest
      | none => .decided .refusal
    | some (.setting s) =>
      if rest.isEmpty then .awaiting g s else .ofGiven? (g.assign? (attachedValue rest) s)

/-- Reads a long name and its value. -/
def readLong (g : Given) (name : String) (value? : Option String) : Outlook :=
  match OptionName.ofLong? name, value? with
  | some (.announce n), none => .decided n
  | some (.switch s), none => .ofGiven? (g.turnOn? s)
  | some (.setting s), none => .awaiting g s
  | some (.setting s), some value => .ofGiven? (g.assign? value s)
  | _, _ => .decided .refusal

/-- Reads the arguments that are left, where `awaited?` is the setting whose value comes next. An
option is no value. -/
def readArguments (g : Given) (awaited? : Option Setting) : List String → Request
  | [] => if awaited?.isSome then .done Notice.refusal.outcome else g.request
  | arg :: args =>
    match awaited?, Argument.ofText arg with
    | some s, .plain value =>
      match g.assign? value s with
      | some g => readArguments g none args
      | none => .done Notice.refusal.outcome
    | some _, _ => .done Notice.refusal.outcome
    | none, .plain _ => .done Notice.refusal.outcome
    | none, .endOfOptions => if args.isEmpty then g.request else .done Notice.refusal.outcome
    | none, .long name value? =>
      match readLong g name value? with
      | .given g => readArguments g none args
      | .awaiting g s => readArguments g (some s) args
      | .decided n => .done n.outcome
    | none, .bundle names =>
      match readBundle g names with
      | .given g => readArguments g none args
      | .awaiting g s => readArguments g (some s) args
      | .decided n => .done n.outcome

/-- The **request** that the arguments make. -/
def Request.ofArguments (args : List String) : Request :=
  readArguments .nothing none args

end MonkeySyntax.Command
