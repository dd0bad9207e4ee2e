import ManualPages.Command.Arguments
import ManualPages.Report

/-! # Running the command

All inputs are loaded before any is converted, so that no page is taken for an input.  Conversions
to files are independent of each other and may run in any order, over a storage that takes all
bytes; to standard output they run in the order of the arguments.  Failures are reported in the
order of the arguments. -/

namespace ManualPages.Command

/-- The command, under the name and the version that its pages bear. -/
def generator : Generator := ⟨"rd2man", "0.1.0"⟩

/-- The line that shows the version. -/
def versionLine : String := generator.name ++ " " ++ generator.version ++ "\n"

/-- How an input that has no file is called. -/
def stdinName : String := "<stdin>"

/-- What happened to an input. -/
inductive Event where
  | loaded (file : String)
  | converted (file : String)
deriving DecidableEq, Repr

namespace Event

def text : Event → String
  | loaded file => "Loaded " ++ file
  | converted file => "Converted " ++ file

end Event

/-- The result of a run.  Input files that failed are listed with their errors; an error in what
came from standard input stands apart. -/
structure Outcome where
  exitCode : Nat
  output : String
  files : FileSystem
  failures : List (String × ConversionError)
  stdinError? : Option ConversionError
  events : List Event

namespace Outcome

/-- A run that converts nothing. -/
def idle (exitCode : Nat) (output : String) (fs : FileSystem) : Outcome :=
  ⟨exitCode, output, fs, [], none, []⟩

end Outcome

/-- How pages are made in a run. -/
def styleOf (i : Invocation) (date : Date) : Page.Style :=
  ⟨⟨generator, i.title?, i.timings⟩, date⟩

/-- The page of a document on standard input. -/
def convertText (style : Page.Style) (input : String) : Except ConversionError String :=
  match Document.ofBytes .text (Utf8.encode input) with
  | .ok d => Conversion.page style d
  | .error e => .error (.load e)

/-- An input file and the document that was loaded from it. -/
structure Loaded where
  file : String
  result : Except ConversionError Document

def loadAll (fs : FileSystem) (files : List String) : List Loaded :=
  files.map fun file => ⟨file, Conversion.load fs file⟩

/-- The page of a loaded input. -/
def pageOf (style : Page.Style) (input : Loaded) : Except ConversionError String :=
  input.result.bind (Conversion.page style)

/-- Convert a loaded input to its file; if that fails the files stay as they are. -/
def convertOne (style : Page.Style) (input : Loaded) (fs : FileSystem) :
    Except ConversionError Unit × FileSystem :=
  match input.result.bind fun d => Conversion.toFile style d input.file fs with
  | .ok fs => (.ok (), fs)
  | .error e => (.error e, fs)

/-- Convert the inputs whose numbers are given, in that order. -/
def convertInOrder (style : Page.Style) (inputs : List Loaded) :
    (order : List Nat) → FileSystem → List (Nat × Except ConversionError Unit) × FileSystem
  | [], fs => ([], fs)
  | i :: order, fs =>
    match inputs[i]? with
    | none => convertInOrder style inputs order fs
    | some input =>
      let (result, fs) := convertOne style input fs
      let (results, fs) := convertInOrder style inputs order fs
      ((i, result) :: results, fs)

/-- The inputs with the results of their conversions, in the order of the arguments. -/
def inArgumentOrder (inputs : List Loaded) (results : List (Nat × Except ConversionError Unit)) :
    List (String × Except ConversionError Unit) :=
  inputs.zipIdx.filterMap fun (input, i) =>
    (results.lookup i).map fun result => (input.file, result)

/-- The failures among results. -/
def failures {α : Type} (results : List (String × Except ConversionError α)) :
    List (String × ConversionError) :=
  results.filterMap fun (file, result) =>
    match result with
    | .ok _ => none
    | .error e => some (file, e)

/-- The inputs that were loaded, and those that were converted. -/
def eventsOf {α : Type} (inputs : List Loaded)
    (results : List (String × Except ConversionError α)) : List Event :=
  let loaded := inputs.filterMap fun input =>
    match input.result with
    | .ok _ => some (Event.loaded input.file)
    | .error _ => none
  let converted := results.filterMap fun (file, result) =>
    match result with
    | .ok _ => some (Event.converted file)
    | .error _ => none
  loaded ++ converted

/-- The outcome of a run over files. -/
def conclude {α : Type} (i : Invocation) (inputs : List Loaded)
    (results : List (String × Except ConversionError α)) (output : String) (fs : FileSystem) :
    Outcome where
  exitCode := if (failures results).isEmpty then 0 else 1
  output := output
  files := fs
  failures := failures results
  stdinError? := none
  events := if i.timings then eventsOf inputs results else []

/-- Convert files to files; the conversions run in the order `order`. -/
def runToFiles (i : Invocation) (date : Date) (order : List Nat) (fs : FileSystem) : Outcome :=
  let inputs := loadAll fs i.files
  let (results, after) := convertInOrder (styleOf i date) inputs order fs
  conclude i inputs (inArgumentOrder inputs results) "" after

/-- Convert files to standard output. -/
def runToStdout (i : Invocation) (date : Date) (fs : FileSystem) : Outcome :=
  let inputs := loadAll fs i.files
  let results := inputs.map fun input => (input.file, pageOf (styleOf i date) input)
  let pages := results.filterMap fun r => r.2.toOption
  conclude i inputs results (String.join pages) fs

/-- Convert what is on standard input. -/
def runFromStdin (i : Invocation) (date : Date) (stdin : String) (fs : FileSystem) : Outcome :=
  match convertText (styleOf i date) stdin with
  | .ok page => .idle 0 page fs
  | .error e => { Outcome.idle 1 "" fs with stdinError? := some e }

/-- Do what the invocation asks for. -/
def runInvocation (i : Invocation) (date : Date) (stdin : String) (fs : FileSystem) : Outcome :=
  if i.fromStdin then runFromStdin i date stdin fs
  else if i.files.isEmpty then .idle 1 "" fs
  else if i.toStdout then runToStdout i date fs
  else runToFiles i date (List.range i.files.length) fs

/-- Do what the arguments ask for. -/
def run (args : List String) (date : Date) (stdin : String) (fs : FileSystem) : Outcome :=
  match parseArguments args with
  | .error _ => .idle 2 "" fs
  | .ok .version => .idle 0 versionLine fs
  | .ok (.convert i) => runInvocation i date stdin fs

end ManualPages.Command
