import ManualPages.Document.Load
import ManualPages.Page.Render
import ManualPages.Storage

/-! # Conversion

A page goes into the file that is named like the input, with the manual section for its extension.
The page is complete before that file is touched.  Then the file is opened, which empties it, and
the page is written to it: a conversion that fails while it writes leaves what has been written.
`convert` takes these steps over any storage, and `toFile` over one that takes all bytes. -/

namespace ManualPages

/-- Why a page cannot be put into its file. -/
inductive OutputError where
  | cannotOpen (e : FileError)
  | cannotWrite (e : FileError)

namespace OutputError

def message : OutputError → String
  | cannotOpen e => e.message
  | cannotWrite e => e.message

end OutputError

/-- Why a conversion fails. -/
inductive ConversionError where
  | load (e : LoadError)
  | page (e : Page.Fault)
  | samePath (path : String)
  | output (e : OutputError)

namespace ConversionError

def message : ConversionError → String
  | load (.misplaced o) => s!"no rendering rule for node kind '{o.kind}' (at {o.pathText})"
  | load e => e.message
  | page e => e.message
  | samePath path => "input file and output file cannot be the same: " ++ path
  | output e => e.message

end ConversionError

/-- A step that may change files.  What it has changed stays so if it fails. -/
abbrev Writing (α : Type) := ExceptT ConversionError (StateM FileSystem) α

namespace Writing

/-- What a step comes to, and the files behind it. -/
def runFrom {α : Type} (step : Writing α) (fs : FileSystem) :
    Except ConversionError α × FileSystem :=
  step.run fs

/-- What does not touch the files. -/
def lift {α : Type} (result : Except ConversionError α) : Writing α :=
  ExceptT.mk fun fs => (result, fs)

/-- Open a file to be written: one that exists is emptied. -/
def openEmpty (storage : Storage) (name : String) : Writing Location := ExceptT.mk fun fs =>
  match storage.place fs name.toList with
  | .ok loc => (.ok loc, fs.set loc (.file []))
  | .error e => (.error (.output (.cannotOpen e)), fs)

/-- Write bytes behind those that a file has, as far as the storage takes them. -/
def append (storage : Storage) (loc : Location) (bytes : List UInt8) : Writing Unit :=
  ExceptT.mk fun fs =>
    match storage.fault? fs loc bytes with
    | none => (.ok (), fs.append loc bytes)
    | some fault =>
      (.error (.output (.cannotWrite fault.reason)), fs.append loc (bytes.take fault.taken))

end Writing

namespace Conversion

/-- The file that the page of `input` goes into: not the input itself. -/
def outputPath (input : String) : Except ConversionError String :=
  let output := Path.withExtension Page.manualSection.toList input.toList
  if Path.components output = Path.components input.toList then .error (.samePath input)
  else .ok (String.ofList output)

/-- The page of a document. -/
def page (style : Page.Style) (d : Document) : Except ConversionError String :=
  match Page.render style d with
  | .ok p => .ok p
  | .error e => .error (.page e)

/-- The file to be written for `input`, and what is to be in it. -/
def prepare (style : Page.Style) (d : Document) (input : String) :
    Except ConversionError (String × String) := do
  let output ← outputPath input
  let text ← page style d
  pure (output, text)

/-- The steps in which a document that was loaded from `input` is converted. -/
def convert (storage : Storage) (style : Page.Style) (d : Document) (input : String) :
    Writing Unit := do
  let (output, text) ← Writing.lift (prepare style d input)
  let loc ← Writing.openEmpty storage output
  Writing.append storage loc (Utf8.encode text)

/-- The files behind a conversion, if all bytes are taken. -/
def toFile (style : Page.Style) (d : Document) (input : String) (fs : FileSystem) :
    Except ConversionError FileSystem :=
  let (result, after) := (convert .reliable style d input).runFrom fs
  result.map fun _ => after

/-- The document in a file, given the name of the file and what opening it gave. -/
def loadOpened (name : String) (opened : Except FileError Entry) :
    Except ConversionError Document :=
  match Document.ofOpened name opened with
  | .ok d => .ok d
  | .error e => .error (.load e)

/-- The document in the file of that name. -/
def load (fs : FileSystem) (name : String) : Except ConversionError Document :=
  loadOpened name (fs.openFile name.toList)

end Conversion

end ManualPages
