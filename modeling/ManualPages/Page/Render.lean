import ManualPages.Calendar
import ManualPages.Options
import ManualPages.Page.Body
import ManualPages.Page.Title

/-! # Pages

A page is a comment that names its generator, the `.TH` line with title, section and date, the body,
and an empty line. -/

namespace ManualPages.Page

/-- The generator that is named if none is given. -/
def defaultGenerator : String := "rd2man"

/-- The section of the manual that all pages belong to. -/
def manualSection : String := "1"

/-- What a page says besides its document. -/
structure Style where
  options : Options
  date : Date

namespace Style

def generator (style : Style) : String :=
  if style.options.generator.name.isEmpty then defaultGenerator else style.options.generator.name

end Style

/-- The first line. -/
def comment (style : Style) : List Char :=
  ".\\\" DO NOT MODIFY THIS FILE! it was generated by ".toList ++ style.generator.toList

/-- The second line. -/
def titleLine (style : Style) (d : Document) : List Char :=
  ".TH ".toList ++ title style.options.title? d.sourceName? ++ ' ' :: manualSection.toList ++
    " \"".toList ++ style.date.text.toList ++ ['"']

/-- A whole page, set in the state that there is. -/
def page (style : Style) (d : Document) : Setting (List Char) := do
  let source ← body d.blocks
  pure (comment style ++ '\n' :: titleLine style d ++ '\n' :: source ++ ['\n'])

/-- A whole page, set afresh. -/
def fresh (style : Style) (d : Document) : Setting (List Char) := do
  set State.initial
  page style d

/-- The page of a document. -/
def render (style : Style) (d : Document) : Except Fault String :=
  match (fresh style d).runFrom .initial with
  | (.ok source, _) => .ok (String.ofList source)
  | (.error e, _) => .error e

end ManualPages.Page
