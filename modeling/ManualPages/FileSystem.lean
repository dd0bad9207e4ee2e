import ManualPages.Path

/-! # File systems

A `FileSystem` is a finite tree of directories and files with a working directory, at which names
that do not begin with a slash start.  A name is followed piece by piece: every piece but the last
has to be a directory, `..` leads to the directory above, and a slash after the last piece asks for
a directory too.  `openFile` is what opening that name to read gives, and `place` is where a file of
that name is made or replaced.

Links, permissions and limits on resources are left out, and so are names that are not Unicode.  A
file system opens what it finds and takes all bytes; what may keep a file from being opened or
written besides is up to its `Storage`. -/

namespace ManualPages

-- Sums begin with the zero of the core library, whatever else is imported beside it.
attribute [local instance (2000)] Zero.ofOfNat0

/-- Why a file cannot be opened, read or written.  The first five are reasons of a file system; the
storage under it may have no space, or reasons of its own. -/
inductive FileError where
  | notFound
  | notDirectory
  | isDirectory
  | nameTooLong
  | nulInName
  | noSpace
  | other (description : String)
deriving DecidableEq, Repr

namespace FileError

def message : FileError → String
  | notFound => "No such file or directory (os error 2)"
  | notDirectory => "Not a directory (os error 20)"
  | isDirectory => "Is a directory (os error 21)"
  | nameTooLong => "File name too long (os error 36)"
  | nulInName => "file name contained an unexpected NUL byte"
  | noSpace => "No space left on device (os error 28)"
  | other description => description

end FileError

/-- The way from the root to a file or directory. -/
abbrev Location := List (List Char)

inductive Entry where
  | directory
  | file (bytes : List UInt8)
deriving DecidableEq, Repr

structure FileSystem where
  entries : List (Location × Entry)
  working : Location
deriving DecidableEq, Repr

namespace FileSystem

/-- The root is a directory; everything else is what the entries say. -/
def lookup (fs : FileSystem) (loc : Location) : Option Entry :=
  if loc = [] then some .directory
  else (fs.entries.find? fun e => e.1 == loc).map (·.2)

/-- Put `entry` at `loc`. -/
def set (fs : FileSystem) (loc : Location) (entry : Entry) : FileSystem :=
  { fs with entries := (loc, entry) :: fs.entries.filter fun e => e.1 != loc }

/-- The bytes that a piece of a name may have. -/
def maxPiece : Nat := 255

/-- The bytes that a name may have. -/
def maxName : Nat := 4095

def byteLength (s : List Char) : Nat := (s.map Char.utf8Size).sum

/-- Follow one piece from a directory or file. -/
def follow (fs : FileSystem) (loc : Location) (piece : List Char) : Except FileError Location :=
  match fs.lookup loc with
  | none => .error .notFound
  | some (.file _) => .error .notDirectory
  | some .directory =>
    if piece = [] ∨ piece = ['.'] then .ok loc
    else if piece = ['.', '.'] then .ok loc.dropLast
    else if maxPiece < byteLength piece then .error .nameTooLong
    else .ok (loc ++ [piece])

def followAll (fs : FileSystem) : Location → List (List Char) → Except FileError Location
  | loc, [] => .ok loc
  | loc, piece :: rest => do
    let next ← fs.follow loc piece
    fs.followAll next rest

/-- Where a name leads; something need be there only if a piece of the name comes after it. -/
def locate (fs : FileSystem) (name : List Char) : Except FileError Location :=
  if '\x00' ∈ name then .error .nulInName
  else if name = [] then .error .notFound
  else if maxName < byteLength name then .error .nameTooLong
  else fs.followAll (if name.head? = some '/' then [] else fs.working) (Path.pieces name)

/-- What opening a name to read gives: a directory can be opened, but not read. -/
def openFile (fs : FileSystem) (name : List Char) : Except FileError Entry := do
  let loc ← fs.locate name
  match fs.lookup loc with
  | some e => .ok e
  | none => .error .notFound

/-- Where a file of that name is made, or its contents are replaced. -/
def place (fs : FileSystem) (name : List Char) : Except FileError Location :=
  match fs.locate name with
  | .ok loc => if fs.lookup loc = some .directory then .error .isDirectory else .ok loc
  | .error e => .error e

/-- Put bytes behind those of a file. -/
def append (fs : FileSystem) (loc : Location) (bytes : List UInt8) : FileSystem :=
  match fs.lookup loc with
  | some (.file before) => fs.set loc (.file (before ++ bytes))
  | _ => fs

/-- The bytes of all files. -/
def size (fs : FileSystem) : Nat :=
  (fs.entries.map fun e =>
    match e.2 with
    | .file bytes => bytes.length
    | .directory => 0).sum

theorem lookup_set_self {fs : FileSystem} {loc : Location} (h : loc ≠ []) (e : Entry) :
    (fs.set loc e).lookup loc = some e := by
  simp [lookup, set, h]

theorem lookup_set_ne {fs : FileSystem} {loc other : Location} (h : other ≠ loc) (e : Entry) :
    (fs.set loc e).lookup other = fs.lookup other := by
  have hf : ∀ l : List (Location × Entry),
      (l.filter fun x => x.1 != loc).find? (fun x => x.1 == other) =
        l.find? fun x => x.1 == other := by
    intro l
    induction l with
    | nil => rfl
    | cons x l ih =>
      by_cases hx : x.1 = loc
      · have hn : loc ≠ other := fun e => h e.symm
        simp [hx, ih, hn]
      · simp [hx, List.find?_cons, ih]
  by_cases ho : other = []
  · simp [lookup, ho]
  · simp [lookup, set, ho, Ne.symm h, hf]

end FileSystem

end ManualPages
