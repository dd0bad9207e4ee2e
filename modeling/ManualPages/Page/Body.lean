import ManualPages.Page.Text
import ManualPages.Roff.Line
import ManualPages.Signature

/-! # Setting blocks

Every block becomes lines of roff source for the `man` macros: `.SH` and `.SS` for headlines, `.PP`
for paragraphs, `.nf` and `.fi` around verbatim lines, `.IP` with a bullet for the items of a
bulleted list, and `.TP` for those of the other lists. -/

namespace ManualPages.Page

/-- What a block stands in. -/
inductive Context where
  | document
  | bulletItem
  | numberedItem
  | description
  | method
deriving DecidableEq, Repr

namespace Context

/-- Does a paragraph begin with a macro here?  The items of the first three kinds of lists have
begun one already. -/
def opensParagraph : Context → Bool
  | document => true
  | method => true
  | bulletItem => false
  | numberedItem => false
  | description => false

end Context

/-- The macro for a headline: a section, or a subsection below the first level. -/
def headline (level : Int64) (title : List Char) : List Char :=
  (if level ≤ 1 then ".SH ".toList else ".SS ".toList) ++ title ++ ['\n']

def paragraph (context : Context) (body : List Char) : List Char :=
  if context.opensParagraph then ".PP\n".toList ++ body else body

/-- A verbatim line, indented; the mark in front keeps it from being a control line. -/
def verbatimLine (line : String) : List Char :=
  Roff.zeroWidth ++ "    ".toList ++ Roff.escape (Roff.trimLineEnd line.toList) ++ ['\n']

def verbatim (lines : List String) : List Char :=
  ".nf\n".toList ++ lines.flatMap verbatimLine ++ ".fi\n".toList

/-- The macro that begins an item of a bulleted list. -/
def bullet : List Char := ".IP\n.B\n\\(bu\n".toList

/-- The items of a bulleted list, each after a bullet; a list without items has a bullet too. -/
def bulleted (items : List (List Char)) : List Char := bullet ++ Text.join bullet items

def numberedItem (n : Nat) (blocks : List (List Char)) : List Char :=
  ".TP\n".toList ++ (toString n).toList ++ ".\n".toList ++ Text.join ['\n'] blocks

theorem isDigit_of_mem_toString {n : Nat} {c : Char} (h : c ∈ (toString n).toList) : c.isDigit := by
  rw [Nat.toString_eq_repr, Nat.toList_repr] at h
  exact Nat.isDigit_of_mem_toDigits (by decide) (by decide) h

/-- A term in bold and its description, which may be absent. -/
def termItem (term : List Char) (body : List (List Char)) : List Char :=
  ".TP\n.fi\n.B\n".toList ++ term ++
    if body.isEmpty then [] else '\n' :: Text.join ['\n'] body

def descriptionItem (term : List Char) (body : List (List Char)) : List Char :=
  if body.isEmpty then termItem term body else Roff.chomp (termItem term body)

/-- The signature of a method as it is shown. -/
def signature (descriptor : String) : Setting (List Char) :=
  match (Signature.parse descriptor.toList).show? with
  | some shown => pure shown
  | none => throw (.malformedSignature descriptor)

mutual

/-- One block. -/
def block (context : Context) : Block → Setting (List Char)
  | .headline level title => do
    let title ← inlines title
    pure (headline level title)
  | .paragraph content => do
    let body ← inlines content
    pure (paragraph context body)
  | .verbatim lines => pure (verbatim lines)
  | .bulletList items => do
    let items ← bulletItems items
    pure (bulleted items)
  | .numberedList items => Setting.numbered (numberedItems items)
  | .descriptionList items => descriptions items
  | .methodList items => methods items

/-- Blocks, each for itself. -/
def blocks (context : Context) : List Block → Setting (List (List Char))
  | [] => pure []
  | b :: rest => do
    let first ← block context b
    let others ← blocks context rest
    pure (first :: others)

/-- An item of a bulleted list. -/
def bulletItem : Item → Setting (List Char)
  | ⟨content⟩ => do
    let pieces ← blocks .bulletItem content
    pure (pieces.flatMap Roff.endLine)

/-- The items of a bulleted list.  The bullet has broken the line already, so the first empty line
of an item is closed up. -/
def bulletItems : List Item → Setting (List (List Char))
  | [] => pure []
  | i :: rest => do
    let first ← bulletItem i
    let others ← bulletItems rest
    pure (Roff.closeFirstGap first :: others)

/-- An item of a numbered list. -/
def numberedEntry : Item → Setting (List Char)
  | ⟨content⟩ => do
    let n ← Setting.nextNumber
    let pieces ← blocks .numberedItem content
    pure (numberedItem n pieces)

def numberedItems : List Item → Setting (List Char)
  | [] => pure []
  | i :: rest => do
    let first ← numberedEntry i
    let others ← numberedItems rest
    pure (first ++ others)

/-- An item of a description list. -/
def description : Description → Setting (List Char)
  | ⟨term, body⟩ => do
    let term ← inlines term
    let pieces ← blocks .description body
    pure (descriptionItem term pieces)

def descriptions : List Description → Setting (List Char)
  | [] => pure []
  | d :: rest => do
    let first ← description d
    let others ← descriptions rest
    pure (Roff.endLine first ++ others)

/-- An item of a method list. -/
def method : Method → Setting (List Char)
  | ⟨descriptor, body⟩ => do
    let shown ← signature descriptor
    let pieces ← blocks .method body
    pure (termItem (Roff.escape shown) pieces)

def methods : List Method → Setting (List Char)
  | [] => pure []
  | m :: rest => do
    let first ← method m
    let others ← methods rest
    pure (Roff.endLine first ++ others)

end

/-- The body of a page. -/
def body (content : List Block) : Setting (List Char) := do
  let pieces ← blocks .document content
  pure pieces.flatten

end ManualPages.Page
