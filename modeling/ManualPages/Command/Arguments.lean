import ManualPages.Text.Split

/-! # Command line arguments

Arguments are taken from left to right.  An option may be given once; several short ones may share
a hyphen, and the title may stand in the same argument, after an equals sign or not.  After `--`
everything is a file, and so is a lone hyphen. -/

namespace ManualPages.Command

/-- What the command is asked to convert, and how. -/
structure Invocation where
  files : List String
  fromStdin : Bool
  title? : Option String
  toStdout : Bool
  timings : Bool
deriving DecidableEq, Repr

inductive Request where
  | convert (invocation : Invocation)
  | version
deriving DecidableEq, Repr

inductive UsageError where
  | unknownOption (name : String)
  | repeated (name : String)
  | missingValue (name : String)
  | unexpectedValue (name : String)
  | emptyFile
  | filesWithStdin
deriving DecidableEq, Repr

namespace UsageError

def message : UsageError → String
  | unknownOption name => s!"error: unexpected argument '{name}' found"
  | repeated name => s!"error: the argument '{name}' cannot be used multiple times"
  | missingValue name => s!"error: a value is required for '{name}' but none was supplied"
  | unexpectedValue name => s!"error: unexpected value for '{name}' found; no more were expected"
  | emptyFile => "error: a value is required for '[FILES]...' but none was supplied"
  | filesWithStdin => "error: the argument '[FILES]...' cannot be used with '--stdin'"

end UsageError

namespace Invocation

/-- Nothing is asked for yet. -/
def none : Invocation := ⟨[], false, .none, false, false⟩

def addFile (i : Invocation) (file : String) : Except UsageError Invocation :=
  if file.isEmpty then .error .emptyFile else .ok { i with files := i.files ++ [file] }

def setStdin (i : Invocation) : Except UsageError Invocation :=
  if i.fromStdin then .error (.repeated "--stdin") else .ok { i with fromStdin := true }

def setStdout (i : Invocation) : Except UsageError Invocation :=
  if i.toStdout then .error (.repeated "--stdout") else .ok { i with toStdout := true }

def setTimings (i : Invocation) : Except UsageError Invocation :=
  if i.timings then .error (.repeated "--timings") else .ok { i with timings := true }

def setTitle (i : Invocation) (title : String) : Except UsageError Invocation :=
  if i.title?.isSome then .error (.repeated "--title <TITLE>")
  else .ok { i with title? := some title }

/-- All arguments have been taken. -/
def finish (i : Invocation) : Except UsageError Request :=
  if i.fromStdin && !i.files.isEmpty then .error .filesWithStdin else .ok (.convert i)

end Invocation

/-- What one argument with options leads to. -/
inductive Taken where
  | done (i : Invocation)
  | needsTitle (i : Invocation)
  | version

/-- The short options that share a hyphen. -/
def takeShort (i : Invocation) : List Char → Except UsageError Taken
  | [] => .ok (.done i)
  | 'o' :: rest => do takeShort (← i.setStdout) rest
  | 'V' :: _ => .ok .version
  | ['t'] => .ok (.needsTitle i)
  | 't' :: '=' :: value => do pure (.done (← i.setTitle (String.ofList value)))
  | 't' :: value => do pure (.done (← i.setTitle (String.ofList value)))
  | c :: _ => .error (.unknownOption (String.ofList ['-', c]))

/-- A long option, without its hyphens. -/
def takeLong (i : Invocation) (option : List Char) : Except UsageError Taken := do
  let (name, value?) := match Text.splitFirst ['='] option with
    | some (name, value) => (name, some value)
    | none => (option, none)
  let name := String.ofList name
  match name, value? with
  | "title", some value => pure (.done (← i.setTitle (String.ofList value)))
  | "title", none => pure (.needsTitle i)
  | "stdin", none => pure (.done (← i.setStdin))
  | "stdout", none => pure (.done (← i.setStdout))
  | "timings", none => pure (.done (← i.setTimings))
  | "version", none => pure .version
  | _, _ =>
    if name ∈ ["stdin", "stdout", "timings", "version"] then
      throw (.unexpectedValue ("--" ++ name))
    else throw (.unknownOption ("--" ++ name))

/-- Does an argument begin an option, so that it is no separate value? -/
def isOption (arg : String) : Bool := arg.startsWith "-" && arg != "-"

/-- The files that are left. -/
def takeFiles (i : Invocation) : List String → Except UsageError Request
  | [] => i.finish
  | file :: rest => do takeFiles (← i.addFile file) rest

/-- Take the arguments that are left. -/
def takeAll (i : Invocation) : List String → Except UsageError Request
  | [] => i.finish
  | "--" :: rest => takeFiles i rest
  | arg :: rest =>
    if !isOption arg then do takeAll (← i.addFile arg) rest
    else do
      let taken ← match arg.toList with
        | '-' :: '-' :: option => takeLong i option
        | chars => takeShort i chars.tail
      match taken, rest with
      | .done i, rest => takeAll i rest
      | .version, _ => pure .version
      | .needsTitle _, [] => throw (.missingValue "--title <TITLE>")
      | .needsTitle i, value :: rest =>
        if isOption value then throw (.missingValue "--title <TITLE>")
        else takeAll (← i.setTitle value) rest

/-- What the arguments ask for. -/
def parseArguments (args : List String) : Except UsageError Request := takeAll .none args

end ManualPages.Command
