import ManualPages.FileSystem

/-! # Storage

A name that leads to a place need not be one that can be written: the `Storage` under a file system
may refuse to open the file, and it may stop in the middle of the bytes that are written to it.  A
file is emptied when it is opened, so a write that stops leaves the beginning of what was to be
written, and nothing of what the file held. -/

namespace ManualPages

/-- Where a write stopped: how many bytes were taken until the file was closed, and why not all. -/
structure WriteFault where
  taken : Nat
  reason : FileError
deriving DecidableEq, Repr

/-- What is under a file system.  Both may depend on all the files that there are. -/
structure Storage where
  refusal? : FileSystem → Location → Option FileError
  fault? : FileSystem → Location → List UInt8 → Option WriteFault

namespace Storage

/-- Opens every file and takes all bytes. -/
def reliable : Storage where
  refusal? _ _ := none
  fault? _ _ _ := none

/-- Takes as many bytes as there is room for beside the files. -/
def disk (capacity : Nat) : Storage where
  refusal? _ _ := none
  fault? fs _ bytes :=
    let room := capacity - fs.size
    if bytes.length ≤ room then none else some ⟨room, .noSpace⟩

/-- Where a file of that name is opened to be written. -/
def place (storage : Storage) (fs : FileSystem) (name : List Char) : Except FileError Location :=
  match fs.place name with
  | .error e => .error e
  | .ok loc =>
    match storage.refusal? fs loc with
    | some e => .error e
    | none => .ok loc

end Storage

end ManualPages
