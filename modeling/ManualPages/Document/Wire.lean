import ManualPages.Document.Kind
import ManualPages.Json.Value

/-! # The stored form of a document

`Document.toValue` is the JSON value under which a document is stored.  Blocks and inline nodes name
their kind under `type`; the root and the list items may do so too, which makes no difference to a
reader.  Every other field is always written, except a source name and a file name that are not
there. -/

namespace ManualPages

open Json (Value Members)

/-- Which nodes name their kind: those that need to, or all of them. -/
inductive Tagging where
  | needed
  | everywhere
deriving DecidableEq, Repr

namespace Tagging

/-- The `type` of a node that need not have one. -/
def optional (tagging : Tagging) (kind : Kind) : List (String × Value) :=
  match tagging with
  | needed => []
  | everywhere => [("type", .string kind.name)]

end Tagging

namespace Target

def toValue : Target → Value
  | url u => .object [("kind", .string "URL"), ("url", .string u)]
  | label name none => .object [("kind", .string "Label"), ("name", .string name)]
  | label name (some file) =>
    .object [("filename", .string file), ("kind", .string "Label"), ("name", .string name)]
  | unsupported => .object [("kind", .string "Unsupported")]

end Target

/-- The member that names a node's kind. -/
def typeMember (kind : Kind) : String × Value := ("type", .string kind.name)

namespace Inline

mutual

def toValue : Inline → Value
  | text s => .object [("content", .string s), typeMember .text]
  | verb s => .object [("content", .string s), typeMember .verb]
  | span role content =>
    .object [("content", .array (toValues content)), typeMember role.kind]
  | reference target content =>
    .object [("content", .array (toValues content)), ("label", target.toValue),
      typeMember .reference]

def toValues : List Inline → List Value
  | [] => []
  | node :: rest => toValue node :: toValues rest

end

end Inline

namespace Block

mutual

def toValue (tagging : Tagging) : Block → Value
  | headline level title =>
    .object [("content", .array (Inline.toValues title)),
      ("level", .number (.integer level.toInt)), typeMember .headline]
  | paragraph content =>
    .object [("content", .array (Inline.toValues content)), typeMember .paragraph]
  | verbatim lines =>
    .object [("lines", .array (lines.map .string)), typeMember .verbatim]
  | bulletList items =>
    .object [("items", .array (itemValues tagging .bulletItem items)), typeMember .bulletList]
  | numberedList items =>
    .object [("items", .array (itemValues tagging .numberedItem items)), typeMember .numberedList]
  | descriptionList items =>
    .object [("items", .array (descriptionValues tagging items)), typeMember .descriptionList]
  | methodList items =>
    .object [("items", .array (methodValues tagging items)), typeMember .methodList]

def toValues (tagging : Tagging) : List Block → List Value
  | [] => []
  | b :: rest => toValue tagging b :: toValues tagging rest

def itemValues (tagging : Tagging) (kind : Kind) : List Item → List Value
  | [] => []
  | ⟨blocks⟩ :: rest =>
    .object (("blocks", .array (toValues tagging blocks)) :: tagging.optional kind) ::
      itemValues tagging kind rest

def descriptionValues (tagging : Tagging) : List Description → List Value
  | [] => []
  | ⟨term, body⟩ :: rest =>
    .object (("description", .array (toValues tagging body)) ::
        ("term", .array (Inline.toValues term)) :: tagging.optional .descriptionItem) ::
      descriptionValues tagging rest

def methodValues (tagging : Tagging) : List Method → List Value
  | [] => []
  | ⟨descriptor, body⟩ :: rest =>
    .object (("description", .array (toValues tagging body)) ::
        ("term", .string descriptor) :: tagging.optional .methodItem) ::
      methodValues tagging rest

end

end Block

namespace Document

def toValue (tagging : Tagging) (d : Document) : Value :=
  let source := match d.sourceName? with
    | some name => [("source_name", .string name)]
    | none => []
  .object (("blocks", .array (Block.toValues tagging d.blocks)) :: source ++
    tagging.optional .document)

end Document

end ManualPages
