import ManualPages.Document.Basic
import ManualPages.Page.State
import ManualPages.Roff.Font

/-! # Setting running text

Inline nodes become roff source in order.  Text is escaped, emphasis is italic, code is bold, and
variables and keyboard input look like text.  An index entry is bold the first time its term is met
and is left out afterwards; a footnote is left out always, and nothing in it is looked at.  A page
cannot link anywhere, so a reference is its text. -/

namespace ManualPages.Page

/-- The term of an index entry: the escaped text of the nodes that stand directly in it. -/
def indexTerm (content : List Inline) : List Char := Roff.escape (Inline.directText content)

/-- What the source puts before the name in a reference to a function of the same document. -/
def functionMark : List Char := "function#".toList

/-- The text of a reference, by its target. -/
def resolve (target : Target) (content : List Inline) (body : List Char) : Setting (List Char) :=
  match target with
  | .url _ => pure body
  | .label _ (some _) => pure body
  | .label _ none => pure ((Text.stripFront functionMark body).getD body)
  | .unsupported => throw (.unresolvableReference (Inline.plainText content))

/-- A span, given what it holds. -/
def span (role : Role) (content : List Inline) (body : List Char) : Setting (List Char) :=
  match role with
  | .emphasis => pure (Roff.italic body)
  | .code => pure (Roff.bold body)
  | .var => pure body
  | .keyboard => pure body
  | .index => do
    let new ← Setting.register (indexTerm content)
    pure (if new then Roff.bold body else [])
  | .footnote => pure []

mutual

/-- One inline node. -/
def inline : Inline → Setting (List Char)
  | .text s => pure (Roff.escape s.toList)
  | .verb s => pure (Roff.escape s.toList)
  | .span .footnote _ => pure []
  | .span role content => do
    let body ← inlines content
    span role content body
  | .reference target content => do
    let body ← inlines content
    resolve target content body

/-- Inline nodes one after the other. -/
def inlines : List Inline → Setting (List Char)
  | [] => pure []
  | node :: rest => do
    let first ← inline node
    let others ← inlines rest
    pure (first ++ others)

end

end ManualPages.Page
