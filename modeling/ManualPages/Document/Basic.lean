/-! # Documents

A document is a list of blocks: headlines, paragraphs, verbatim lines and four kinds of lists,
whose items hold blocks again.  The text of a block is a list of inline nodes: plain and literal
text, spans that give their content a role, and references. -/

namespace ManualPages

/-- What a reference points at: a URL, a label in this document or in another file, or something
that has no meaning here. -/
inductive Target where
  | url (url : String)
  | label (name : String) (file? : Option String)
  | unsupported
deriving DecidableEq, Repr

/-- What a span is for. -/
inductive Role where
  | emphasis
  | code
  | var
  | keyboard
  | index
  | footnote
deriving DecidableEq, Repr

/-- A piece of running text. -/
inductive Inline where
  | text (s : String)
  | verb (s : String)
  | span (role : Role) (content : List Inline)
  | reference (target : Target) (content : List Inline)
deriving Inhabited, Repr

mutual

/-- A block.  Level 1 is the outermost headline. -/
inductive Block where
  | headline (level : Int64) (title : List Inline)
  | paragraph (content : List Inline)
  | verbatim (lines : List String)
  | bulletList (items : List Item)
  | numberedList (items : List Item)
  | descriptionList (items : List Description)
  | methodList (items : List Method)

/-- An item of a bulleted or numbered list. -/
structure Item where
  blocks : List Block

/-- A term and its description, which may be absent. -/
structure Description where
  term : List Inline
  body : List Block

/-- A method, given by its descriptor as the author wrote it, and its description. -/
structure Method where
  descriptor : String
  body : List Block

end

/-- A document, with the name of the source it was written in if that is known. -/
structure Document where
  sourceName? : Option String
  blocks : List Block

namespace Document

/-- The document of these blocks, from no known source. -/
def ofBlocks (blocks : List Block) : Document := ⟨none, blocks⟩

def withSourceName (d : Document) (name : String) : Document := { d with sourceName? := some name }

/-- Take `name` for the source if none is known. -/
def orSourceName (d : Document) (name : String) : Document :=
  match d.sourceName? with
  | some _ => d
  | none => d.withSourceName name

end Document

namespace Inline

/-- The characters of a text or verb node; `none` for every other node. -/
def literal? : Inline → Option String
  | text s => some s
  | verb s => some s
  | span _ _ => none
  | reference _ _ => none

mutual

/-- The plain text of a node.  A footnote has none. -/
def plain : Inline → List Char
  | text s => s.toList
  | verb s => s.toList
  | span .footnote _ => []
  | span _ content => plainAll content
  | reference _ content => plainAll content

/-- The plain text of a list of nodes. -/
def plainAll : List Inline → List Char
  | [] => []
  | node :: rest => plain node ++ plainAll rest

end

/-- The plain text of a list of nodes. -/
def plainText (nodes : List Inline) : String := String.ofList (plainAll nodes)

/-- The characters of the text and verb nodes that stand directly in the list. -/
def directText (nodes : List Inline) : List Char :=
  nodes.flatMap fun node => (node.literal?.getD "").toList

theorem plainAll_append (a b : List Inline) : plainAll (a ++ b) = plainAll a ++ plainAll b := by
  induction a with
  | nil => simp [plainAll]
  | cons node a ih => simp [plainAll, ih]

end Inline

end ManualPages
