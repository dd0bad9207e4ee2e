import ManualPages.Document.Mismatch

/-! # Reading the stored form

A record is stored as an object, whose unknown members do not matter, or as an array of its fields
in order, of which those with a default may be left out at the end.  A tagged node is an object that
names its kind, or an array that begins with the kind and goes on with the fields.

A node inside another tagged node, `Place.inside`, may give its kind by number.  Elsewhere,
`Place.outside`, only by name; and a record there counts the elements that it has no field for in
other words.

The members of an object are read in the order of their keys, and a field that is absent counts as
missing only after all that are there have been read. -/

namespace ManualPages

open Json (Value Members)

/-- Is a value part of a tagged node? -/
inductive Place where
  | outside
  | inside
deriving DecidableEq, Repr

namespace Decode

abbrev Result (α : Type) := Except Mismatch α

def string : Value → Result String
  | .string s => .ok s
  | v => .error (.wrongType v .string)

/-- A text, or `null` for none. -/
def optionalString : Value → Result (Option String)
  | .null => .ok none
  | v => do pure (some (← string v))

def level : Value → Result Int64
  | .number (.integer n) =>
    if n ≤ Int64.maxValue.toInt then .ok (Int64.ofInt n) else .error (.tooLarge n)
  | v => .error (.wrongType v .integer)

def strings : List Value → Result (List String)
  | [] => .ok []
  | v :: rest => do
    let s ← string v
    pure (s :: (← strings rest))

/-- An array of texts. -/
def lines : Value → Result (List String)
  | .array items => strings items
  | v => .error (.wrongType v .sequence)

/-- The member under `key`, read by `read` if it is there. -/
def optional {α : Type} (members : Members) (key : String) (read : Value → Result α) :
    Result (Option α) :=
  match members.get? key with
  | some v => do pure (some (← read v))
  | none => .ok none

/-- A field that must be there. -/
def required {α : Type} (key : String) : Option α → Result α
  | some a => .ok a
  | none => .error (.missing key)

/-- Refuse the elements of an array beyond the `count` fields of a record. -/
def noMore (place : Place) (count : Nat) (extra : List Value) : Result Unit :=
  if extra.isEmpty then .ok ()
  else .error (.tooLong (count + extra.length) (if place = .inside then some count else none))

/-- The kind that a tag names or, inside a tagged node, numbers. -/
def tag (place : Place) (kinds : List Kind) : Value → Result Kind
  | .string s =>
    match Kind.find? kinds s with
    | some k => .ok k
    | none => .error (.unknownKind s kinds)
  | .number (.integer n) =>
    if place = .inside ∧ 0 ≤ n then
      match kinds[n.toNat]? with
      | some k => .ok k
      | none => .error (.noSuchVariant n kinds.length)
    else .error (.wrongType (.number (.integer n)) .tag)
  | v => .error (.wrongType v .tag)

/-- The tag of an object. -/
def tagOf (place : Place) (kinds : List Kind) (members : Members) : Result Kind :=
  match members.get? "type" with
  | some v => tag place kinds v
  | none => .error (.missing "type")

/-! ### References -/

/-- The sorts of targets. -/
inductive TargetSort where
  | url
  | label
  | unsupported

/-- The sort that a target's `kind` names or, inside a tagged node, numbers.  Names and numbers
without a meaning are unsupported. -/
def targetSort (place : Place) : Value → Result TargetSort
  | .string "URL" => .ok .url
  | .string "Label" => .ok .label
  | .string _ => .ok .unsupported
  | .number (.integer n) =>
    if place = .inside ∧ 0 ≤ n then
      .ok (if n = 0 then .url else if n = 1 then .label else .unsupported)
    else .error (.wrongType (.number (.integer n)) .tag)
  | v => .error (.wrongType v .tag)

def urlShape : Shape := ⟨"struct variant ReferenceLabel::Url", 1⟩

def labelShape : Shape := ⟨"struct variant ReferenceLabel::Label", 2⟩

def target (place : Place) : Value → Result Target
  | .object members => do
    let some kind := Members.get? members "kind" | .error (.missing "kind")
    match ← targetSort place kind with
    | .url => do
      let url ← optional members "url" string
      pure (.url (← required "url" url))
    | .label => do
      let file ← optional members "filename" optionalString
      let name ← optional members "name" string
      pure (.label (← required "name" name) file.join)
    | .unsupported => pure .unsupported
  | .array [] => .error (.missing "kind")
  | .array (kind :: fields) => do
    match ← targetSort place kind, fields with
    | .url, [] => .error (.tooShort 0 urlShape)
    | .url, url :: extra => do
      let url ← string url
      noMore .inside 1 extra
      pure (.url url)
    | .label, [] => .error (.tooShort 0 labelShape)
    | .label, [name] => do pure (.label (← string name) none)
    | .label, name :: file :: extra => do
      let name ← string name
      let file ← optionalString file
      noMore .inside 2 extra
      pure (.label name file)
    | .unsupported, extra => do
      noMore .inside 0 extra
      pure .unsupported
  | v => .error (.wrongType v (.node "ReferenceLabel"))

/-! ### Inline nodes -/

/-- The role of a span of that kind. -/
def role : Kind → Role
  | .code => .code
  | .var => .var
  | .keyboard => .keyboard
  | .index => .index
  | .footnote => .footnote
  | _ => .emphasis

def referenceShape : Shape := ⟨"struct Reference", 2⟩

mutual

def inline (place : Place) : Value → Result Inline
  | .object members => do
    match ← tagOf place Kind.inlines members with
    | .text => do
      let content ← optional members "content" string
      pure (.text (← required "content" content))
    | .verb => do
      let content ← optional members "content" string
      pure (.verb (← required "content" content))
    | .reference => do
      let content ← inlinesAt .inside "content" members
      let label ← optional members "label" (target .inside)
      pure (.reference (← required "label" label) content)
    | kind => do pure (.span (role kind) (← inlinesAt .inside "content" members))
  | .array [] => .error (.missing "type")
  | .array (kind :: fields) => do
    let kind ← tag place Kind.inlines kind
    inlineFields kind fields
  | v => .error (.wrongType v (.node "Inline"))
termination_by structural v => v

/-- The fields of an inline node of that kind, in order. -/
def inlineFields : Kind → List Value → Result Inline
  | .text, [] => .error (.tooShort 0 ⟨"struct StringElement", 1⟩)
  | .text, content :: extra => do
    let content ← string content
    noMore .inside 1 extra
    pure (.text content)
  | .verb, [] => .error (.tooShort 0 ⟨"struct Verb", 1⟩)
  | .verb, content :: extra => do
    let content ← string content
    noMore .inside 1 extra
    pure (.verb content)
  | .reference, [] => .error (.tooShort 0 referenceShape)
  | .reference, [label] => do pure (.reference (← target .inside label) [])
  | .reference, label :: content :: extra => do
    let label ← target .inside label
    let content ← inlines .inside content
    noMore .inside 2 extra
    pure (.reference label content)
  | kind, [] => pure (.span (role kind) [])
  | kind, content :: extra => do
    let content ← inlines .inside content
    noMore .inside 1 extra
    pure (.span (role kind) content)
termination_by structural _ fields => fields

/-- An array of inline nodes. -/
def inlines (place : Place) : Value → Result (List Inline)
  | .array items => inlineItems place items
  | v => .error (.wrongType v .sequence)
termination_by structural v => v

def inlineItems (place : Place) : List Value → Result (List Inline)
  | [] => .ok []
  | v :: rest => do
    let node ← inline place v
    pure (node :: (← inlineItems place rest))
termination_by structural items => items

/-- The inline nodes under `key`; none if there is no such member. -/
def inlinesAt (place : Place) (key : String) : List (String × Value) → Result (List Inline)
  | [] => .ok []
  | (k, v) :: rest => if k = key then inlines place v else inlinesAt place key rest
termination_by structural members => members

end

/-- A reference that stands alone, without a tag. -/
def reference : Value → Result Inline
  | .object members => do
    let content ← optional members "content" (inlines .outside)
    let label ← optional members "label" (target .outside)
    pure (.reference (← required "label" label) (content.getD []))
  | .array [] => .error (.tooShort 0 referenceShape)
  | .array [label] => do pure (.reference (← target .outside label) [])
  | .array (label :: content :: extra) => do
    let label ← target .outside label
    let content ← inlines .outside content
    noMore .outside 2 extra
    pure (.reference label content)
  | v => .error (.wrongType v (.record "Reference"))

/-! ### Blocks -/

def headlineShape : Shape := ⟨"struct Headline", 2⟩

def methodShape : Shape := ⟨"struct MethodListItem", 2⟩

mutual

def block (place : Place) : Value → Result Block
  | .object members => do
    match ← tagOf place Kind.blocks members with
    | .headline => do
      let title ← optional members "content" (inlines .inside)
      let n ← optional members "level" level
      pure (.headline (← required "level" n) (title.getD []))
    | .verbatim => do
      let texts ← optional members "lines" lines
      pure (.verbatim (texts.getD []))
    | .bulletList => do pure (.bulletList (← itemsAt .bulletItem members))
    | .numberedList => do pure (.numberedList (← itemsAt .numberedItem members))
    | .descriptionList => do pure (.descriptionList (← descriptionsAt members))
    | .methodList => do pure (.methodList (← methodsAt members))
    | _ => do
      let content ← optional members "content" (inlines .inside)
      pure (.paragraph (content.getD []))
  | .array [] => .error (.missing "type")
  | .array (kind :: fields) => do
    let kind ← tag place Kind.blocks kind
    blockFields kind fields
  | v => .error (.wrongType v (.node "Block"))
termination_by structural v => v

/-- The fields of a block of that kind, in order. -/
def blockFields : Kind → List Value → Result Block
  | .headline, [] => .error (.tooShort 0 headlineShape)
  | .headline, [n] => do pure (.headline (← level n) [])
  | .headline, n :: title :: extra => do
    let n ← level n
    let title ← inlines .inside title
    noMore .inside 2 extra
    pure (.headline n title)
  | .verbatim, [] => pure (.verbatim [])
  | .verbatim, texts :: extra => do
    let texts ← lines texts
    noMore .inside 1 extra
    pure (.verbatim texts)
  | .bulletList, [] => pure (.bulletList [])
  | .bulletList, list :: extra => do
    let list ← items .bulletItem list
    noMore .inside 1 extra
    pure (.bulletList list)
  | .numberedList, [] => pure (.numberedList [])
  | .numberedList, list :: extra => do
    let list ← items .numberedItem list
    noMore .inside 1 extra
    pure (.numberedList list)
  | .descriptionList, [] => pure (.descriptionList [])
  | .descriptionList, list :: extra => do
    let list ← descriptions list
    noMore .inside 1 extra
    pure (.descriptionList list)
  | .methodList, [] => pure (.methodList [])
  | .methodList, list :: extra => do
    let list ← methods list
    noMore .inside 1 extra
    pure (.methodList list)
  | _, [] => pure (.paragraph [])
  | _, content :: extra => do
    let content ← inlines .inside content
    noMore .inside 1 extra
    pure (.paragraph content)
termination_by structural _ fields => fields

/-- An array of blocks. -/
def blocks (place : Place) : Value → Result (List Block)
  | .array items => blockItems place items
  | v => .error (.wrongType v .sequence)
termination_by structural v => v

def blockItems (place : Place) : List Value → Result (List Block)
  | [] => .ok []
  | v :: rest => do
    let b ← block place v
    pure (b :: (← blockItems place rest))
termination_by structural items => items

/-- The blocks under `key`; none if there is no such member. -/
def blocksAt (place : Place) (key : String) : List (String × Value) → Result (List Block)
  | [] => .ok []
  | (k, v) :: rest => if k = key then blocks place v else blocksAt place key rest
termination_by structural members => members

/-- An item of a bulleted or numbered list. -/
def item (place : Place) (kind : Kind) : Value → Result Item
  | .object members => do pure ⟨← blocksAt place "blocks" members⟩
  | .array [] => .ok ⟨[]⟩
  | .array (content :: extra) => do
    let content ← blocks place content
    noMore place 1 extra
    pure ⟨content⟩
  | v => .error (.wrongType v (.record kind.name))
termination_by structural v => v

def items (kind : Kind) : Value → Result (List Item)
  | .array list => itemItems kind list
  | v => .error (.wrongType v .sequence)
termination_by structural v => v

def itemItems (kind : Kind) : List Value → Result (List Item)
  | [] => .ok []
  | v :: rest => do
    let i ← item .inside kind v
    pure (i :: (← itemItems kind rest))
termination_by structural items => items

def itemsAt (kind : Kind) : List (String × Value) → Result (List Item)
  | [] => .ok []
  | (k, v) :: rest => if k = "items" then items kind v else itemsAt kind rest
termination_by structural members => members

/-- An item of a description list. -/
def description (place : Place) : Value → Result Description
  | .object members => do
    let body ← blocksAt place "description" members
    let term ← optional members "term" (inlines place)
    pure ⟨term.getD [], body⟩
  | .array [] => .ok ⟨[], []⟩
  | .array [term] => do pure ⟨← inlines place term, []⟩
  | .array (term :: body :: extra) => do
    let term ← inlines place term
    let body ← blocks place body
    noMore place 2 extra
    pure ⟨term, body⟩
  | v => .error (.wrongType v (.record Kind.descriptionItem.name))
termination_by structural v => v

def descriptions : Value → Result (List Description)
  | .array list => descriptionItems list
  | v => .error (.wrongType v .sequence)
termination_by structural v => v

def descriptionItems : List Value → Result (List Description)
  | [] => .ok []
  | v :: rest => do
    let d ← description .inside v
    pure (d :: (← descriptionItems rest))
termination_by structural items => items

def descriptionsAt : List (String × Value) → Result (List Description)
  | [] => .ok []
  | (k, v) :: rest => if k = "items" then descriptions v else descriptionsAt rest
termination_by structural members => members

/-- An item of a method list. -/
def method (place : Place) : Value → Result Method
  | .object members => do
    let body ← blocksAt place "description" members
    let term ← optional members "term" string
    pure ⟨← required "term" term, body⟩
  | .array [] => .error (.tooShort 0 methodShape)
  | .array [term] => do pure ⟨← string term, []⟩
  | .array (term :: body :: extra) => do
    let term ← string term
    let body ← blocks place body
    noMore place 2 extra
    pure ⟨term, body⟩
  | v => .error (.wrongType v (.record Kind.methodItem.name))
termination_by structural v => v

def methods : Value → Result (List Method)
  | .array list => methodItems list
  | v => .error (.wrongType v .sequence)
termination_by structural v => v

def methodItems : List Value → Result (List Method)
  | [] => .ok []
  | v :: rest => do
    let m ← method .inside v
    pure (m :: (← methodItems rest))
termination_by structural items => items

def methodsAt : List (String × Value) → Result (List Method)
  | [] => .ok []
  | (k, v) :: rest => if k = "items" then methods v else methodsAt rest
termination_by structural members => members

end

def document : Value → Result Document
  | .object members => do
    let content ← optional members "blocks" (blocks .outside)
    let source ← optional members "source_name" optionalString
    pure ⟨source.join, content.getD []⟩
  | .array [] => .ok ⟨none, []⟩
  | .array [source] => do pure ⟨← optionalString source, []⟩
  | .array (source :: content :: extra) => do
    let source ← optionalString source
    let content ← blocks .outside content
    noMore .outside 2 extra
    pure ⟨source, content⟩
  | v => .error (.wrongType v (.record "Document"))

end Decode

end ManualPages
