import ManualPages.Text.Split

/-! # Paths

A path is a text whose pieces are separated by slashes.  Empty pieces and pieces `.` say nothing,
except a `.` at the very beginning; two paths are the same if their `components` are.  The last
component is the path's file name unless it is the root, `.` or `..`, and the part of a file name
after its last point is its extension, unless nothing stands before that point. -/

namespace ManualPages.Path

inductive Component where
  | root
  | current
  | parent
  | normal (name : List Char)
deriving DecidableEq, Repr

/-- The pieces between slashes: one more than there are slashes. -/
def pieces : List Char → List (List Char)
  | [] => [[]]
  | c :: s =>
    if c = '/' then [] :: pieces s
    else
      match pieces s with
      | [] => [[c]]
      | piece :: rest => (c :: piece) :: rest

/-- What a piece after the first says. -/
def component? (piece : List Char) : Option Component :=
  if piece = [] ∨ piece = ['.'] then none
  else if piece = ['.', '.'] then some .parent
  else some (.normal piece)

def components (path : List Char) : List Component :=
  let front := match pieces path with
    | ['.'] :: _ => [.current]
    | [] :: _ :: _ => [.root]
    | _ => []
  front ++ (pieces path).filterMap component?

/-- The file name of a path with the text before it and the text after it. -/
structure Parts where
  front : List Char
  name : List Char
  back : List Char
deriving DecidableEq, Repr

/-- Cut off, from the end of a reversed path, what its last component does not reach: slashes, and
points that stand alone after a slash. -/
def dropBack : List Char → List Char
  | '/' :: s => dropBack s
  | '.' :: '/' :: s => dropBack s
  | s => s

/-- The parts of a path that has a file name. -/
def parts? (path : List Char) : Option Parts :=
  let reversed := dropBack path.reverse
  let name := (reversed.takeWhile (· ≠ '/')).reverse
  if name = [] ∨ name = ['.'] ∨ name = ['.', '.'] then none
  else
    some {
      front := (reversed.dropWhile (· ≠ '/')).reverse
      name := name
      back := path.drop reversed.length }

def fileName? (path : List Char) : Option (List Char) := (parts? path).map (·.name)

/-- The stem and the extension of a file name. -/
def splitName (name : List Char) : List Char × Option (List Char) :=
  match Text.splitLast ['.'] name with
  | none => (name, none)
  | some ([], _) => (name, none)
  | some (stem, extension) => (stem, some extension)

/-- Put `extension` in the place of the extension of a path's file name, or after a name that has
none; what follows the name is lost.  The old extension is taken off first: where it ended the path
and only a point stood before it, the name `..` that is left has no place for another. -/
def withExtension (extension path : List Char) : List Char :=
  match parts? path with
  | none => path
  | some p =>
    match splitName p.name with
    | (['.'], some _) =>
      if p.back = [] then p.front ++ ['.', '.'] else p.front ++ ['.', '.'] ++ extension
    | (stem, _) => p.front ++ stem ++ '.' :: extension

theorem pieces_ne_nil (path : List Char) : pieces path ≠ [] := by
  cases path with
  | nil => simp [pieces]
  | cons c s =>
    rw [pieces]
    split
    · simp
    · split <;> simp

theorem withExtension_of_no_name {path : List Char} (h : fileName? path = none)
    (extension : List Char) : withExtension extension path = path := by
  have hp : parts? path = none := by simpa [fileName?] using h
  simp [withExtension, hp]

end ManualPages.Path
