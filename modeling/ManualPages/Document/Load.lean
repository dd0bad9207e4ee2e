import ManualPages.Document.Decode
import ManualPages.Document.Slot
import ManualPages.FileSystem
import ManualPages.Json.Parser

/-! # Loading a document

A document is loaded in three steps, each of which may refuse it: the bytes are read as JSON, the
kinds of the nodes are checked against their places, and the value is read as a document.  A file
whose document does not name its source is taken for the source itself. -/

namespace ManualPages

/-- Why a document cannot be loaded. -/
inductive LoadError where
  | cannotOpen (e : FileError)
  | cannotRead (e : FileError)
  | notJson (e : Json.SyntaxError)
  | notDocument (e : Mismatch)
  | misplaced (o : Offence)

namespace LoadError

/-- What is wrong with the JSON, if that is what is wrong. -/
def jsonMessage? : LoadError → Option String
  | cannotRead e => some e.message
  | notJson e => some e.message
  | notDocument e => some e.message
  | cannotOpen _ => none
  | misplaced _ => none

/-- What a reader of the tree is told. -/
def message : LoadError → String
  | cannotOpen e => "I/O error: " ++ e.message
  | cannotRead e => "invalid document tree: " ++ e.message
  | notJson e => "invalid document tree: " ++ e.message
  | notDocument e => "invalid document tree: " ++ e.message
  | misplaced o => s!"unhandled node kind '{o.kind}' at {o.pathText}"

end LoadError

namespace Document

/-- The document that a JSON value stores. -/
def ofValue (v : Json.Value) : Except LoadError Document :=
  match Slot.offence? .root v with
  | some o => .error (.misplaced o)
  | none =>
    match Decode.document v with
    | .ok d => .ok d
    | .error e => .error (.notDocument e)

/-- The document that a JSON text stores. -/
def ofBytes (source : Json.Source) (bytes : List UInt8) : Except LoadError Document :=
  match Json.parse source bytes with
  | .ok v => ofValue v
  | .error e => .error (.notJson e)

/-- The document in a file, given the name of the file and what opening it gave. -/
def ofOpened (name : String) : Except FileError Entry → Except LoadError Document
  | .error e => .error (.cannotOpen e)
  | .ok .directory => .error (.cannotRead .isDirectory)
  | .ok (.file bytes) =>
    match ofBytes .stream bytes with
    | .ok d => .ok (d.orSourceName name)
    | .error e => .error e

/-- The document in the file of that name. -/
def ofFile (fs : FileSystem) (name : String) : Except LoadError Document :=
  ofOpened name (fs.openFile name.toList)

end Document

end ManualPages
