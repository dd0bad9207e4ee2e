import ManualPages.Command.Run
import ManualPages.Duration
import Std.Time.Zoned

/-! # The command

Reads the inputs, writes the pages, and reports on standard error. -/

namespace ManualPages.Command

/-- The error of a system call, whose number may come with either sign. -/
def fileError : IO.Error → FileError
  | .noFileOrDirectory _ _ _ => .notFound
  | e@(.inappropriateType _ code _) =>
    if code = 20 ∨ code = 0 - 20 then .notDirectory
    else if code = 21 ∨ code = 0 - 21 then .isDirectory
    else .other (toString e)
  | e@(.resourceExhausted _ code _) =>
    if code = 28 ∨ code = 0 - 28 then .noSpace else .other (toString e)
  | e => .other (toString e)

/-- What opening a file gives. -/
def openInput (name : String) : IO (Except FileError Entry) := do
  if name.contains '\x00' then return .error .nulInName
  try
    let bytes ← IO.FS.readBinFile name
    return .ok (.file bytes.toList)
  catch e =>
    match fileError e with
    | .isDirectory => return .ok .directory
    | e => return .error e

def writeOutput (name page : String) : IO (Except ConversionError Unit) := do
  let file ←
    try IO.FS.Handle.mk name .write
    catch e => return .error (.output (.cannotOpen (fileError e)))
  try
    file.write page.toUTF8
    file.flush
    return .ok ()
  catch e => return .error (.output (.cannotWrite (fileError e)))

/-- Run an action and, if it succeeds and times are asked for, show how long it took. -/
def timed {α : Type} (timings : Bool) (event : Event)
    (action : IO (Except ConversionError α)) : IO (Except ConversionError α) := do
  let start ← IO.monoNanosNow
  let result ← action
  let stop ← IO.monoNanosNow
  if timings && result.toOption.isSome then
    IO.eprintln s!"  {event.text} in {Duration.text (stop - start)}"
  return result

def showReport (e : ConversionError) (input? : Option Input) : IO Unit := do
  let report := Report.ofError e input?
  IO.eprintln s!"  x {report.message}"
  match report.place? with
  | some (source, mark) => IO.eprintln s!"    {source}, byte {mark.offset}: {mark.text}"
  | none => pure ()
  match report.advice? with
  | some advice => IO.eprintln s!"  help: {advice}"
  | none => pure ()

/-- The text of an input, if it can still be read. -/
def inputText (file : String) : IO (Option Input) := do
  match ← openInput file with
  | .ok (.file bytes) => return (Utf8.text? bytes).map fun text => ⟨file, text⟩
  | _ => return none

def today : IO Date := do
  let d := (← Std.Time.PlainDateTime.now).date
  match Date.ofNumbers? d.year.toInt d.month.val d.day.val with
  | some date => return date
  | none => throw (IO.userError "the clock shows no date")

def convertStdin (style : Page.Style) : IO UInt32 := do
  let text ← (← IO.getStdin).readToEnd
  match convertText style text with
  | .ok page =>
    IO.print page
    return 0
  | .error e =>
    showReport e (some ⟨stdinName, text⟩)
    return 1

/-- Convert one loaded input, to its file or to standard output. -/
def convertLoaded (i : Invocation) (style : Page.Style) (input : Loaded) :
    IO (Except ConversionError Unit) := do
  if i.toStdout then
    match pageOf style input with
    | .ok page =>
      IO.print page
      return .ok ()
    | .error e => return .error e
  else
    match input.result.bind fun d => Conversion.prepare style d input.file with
    | .ok (output, page) => writeOutput output page
    | .error e => return .error e

def convertFiles (i : Invocation) (style : Page.Style) : IO UInt32 := do
  let inputs ← i.files.mapM fun file => do
    let result ← timed i.timings (.loaded file) do
      return Conversion.loadOpened file (← openInput file)
    return ⟨file, result⟩
  let results ← inputs.mapM fun input => do
    let result ← timed i.timings (.converted input.file) (convertLoaded i style input)
    return (input.file, result)
  let failed := failures results
  if failed.isEmpty then return 0
  IO.eprintln s!"\nFailed to process {failed.length} file(s):"
  for ((file, e), n) in failed.zipIdx do
    IO.eprintln s!"\n{n + 1}. File: {file}"
    showReport e (← inputText file)
  return 1

/-- The whole command; the result is its exit code. -/
def runCommand (args : List String) : IO UInt32 := do
  match parseArguments args with
  | .error e =>
    IO.eprintln e.message
    return 2
  | .ok .version =>
    IO.print versionLine
    return 0
  | .ok (.convert i) =>
    let style := styleOf i (← today)
    if i.fromStdin then convertStdin style
    else if i.files.isEmpty then
      IO.eprintln "Error: You must pass at least one file, or --stdin"
      return 1
    else convertFiles i style

end ManualPages.Command

def main (args : List String) : IO UInt32 := ManualPages.Command.runCommand args
