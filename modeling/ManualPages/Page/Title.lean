import ManualPages.Path
import ManualPages.Text.Utf8

/-! # Titles

The title of a page is the one that was asked for, else the name of the source, else `Untitled`; of
a path the file name counts, and an ending `.rd` in upper or lower case is left out. -/

namespace ManualPages.Page

/-- The name of a document that has none. -/
def untitled : String := "Untitled"

/-- The ending of a source file. -/
def sourceEnding : List Char := ['.', 'r', 'd']

/-- Is the text `.rd`, in upper or lower case? -/
def isSourceEnding (s : List Char) : Bool := s.map Char.toLower == sourceEnding

/-- A name without an ending `.rd`, which takes the last three bytes. -/
def dropSourceEnding (name : List Char) : List Char :=
  if Utf8.size name < Utf8.size sourceEnding then name
  else
    match Utf8.splitAt? (Utf8.size name - Utf8.size sourceEnding) name with
    | some (stem, ending) => if isSourceEnding ending then stem else name
    | none => name

/-- The file name of a text that is a path to one, or else the text. -/
def baseName (s : List Char) : List Char := (Path.fileName? s).getD s

/-- The title, given the one asked for and the name of the source. -/
def title (asked? source? : Option String) : List Char :=
  dropSourceEnding (baseName ((asked? <|> source?).getD untitled).toList)

end ManualPages.Page
