import ManualPages.Document.Kind
import ManualPages.Json.Value

/-! # Which kinds may stand where

A stored tree is checked before it is read.  A `Slot` is a position in the tree and admits certain
kinds: the root a document, `blocks` and `description` blocks, `content` and `term` inline nodes,
the `items` of a list that list's items, and any other position a node of any kind.  Arrays pass
their slot on to their elements.  `Slot.offence?` finds the first object, parents before children
and members in the order of their keys, whose `type` names a kind that its slot does not admit. -/

namespace ManualPages

open Json (Value Members)

inductive Slot where
  | root
  | block
  | inline
  | item (kind : Kind)
  | other
deriving DecidableEq, Repr

/-- One step from a value to a part of it. -/
inductive Step where
  | key (key : String)
  | index (i : Nat)
deriving DecidableEq, Repr

namespace Step

def text : Step → String
  | key k => k
  | index i => toString i

end Step

/-- The name of a kind that stands where it may not, and the way there from the root. -/
structure Offence where
  kind : String
  path : List Step
deriving DecidableEq, Repr

namespace Offence

/-- The same offence, seen from one step above. -/
def under (step : Step) (o : Offence) : Offence := { o with path := step :: o.path }

/-- The steps of the way, each after a slash; a slash alone is the root. -/
def pathText (o : Offence) : String :=
  if o.path.isEmpty then "/" else String.join (o.path.map fun s => "/" ++ s.text)

end Offence

namespace Slot

/-- The kinds that a slot admits. -/
def kinds : Slot → List Kind
  | root => [.document]
  | block => Kind.blocks
  | inline => Kind.inlines
  | item kind => [kind]
  | other => Kind.all

/-- Does the slot admit a kind of that name? -/
def allows (slot : Slot) (name : String) : Bool := (Kind.find? slot.kinds name).isSome

/-- The kind of the items of a list, by the name of the list's kind. -/
def itemKind? (list : String) : Option Kind :=
  match Kind.find? Kind.blocks list with
  | some .bulletList => some .bulletItem
  | some .numberedList => some .numberedItem
  | some .descriptionList => some .descriptionItem
  | some .methodList => some .methodItem
  | _ => none

/-- The slot of what stands under `key` in an object whose `type` is `parent`. -/
def child (parent : Option String) (key : String) : Slot :=
  match key with
  | "blocks" | "description" => block
  | "content" | "term" => inline
  | "items" => ((parent.bind itemKind?).map item).getD other
  | _ => other

/-- The `type` of an object, if it is a text. -/
def typeName? (members : Members) : Option String := (members.get? "type").bind Value.text?

mutual

/-- The first offence in a value that stands in `slot`. -/
def offence? (slot : Slot) : Value → Option Offence
  | .object members =>
    match typeName? members with
    | some kind => if slot.allows kind then inMembers? (some kind) members else some ⟨kind, []⟩
    | none => inMembers? none members
  | .array items => inItems? slot 0 items
  | .null => none
  | .bool _ => none
  | .number _ => none
  | .string _ => none

/-- The first offence in the members of an object whose `type` is `parent`. -/
def inMembers? (parent : Option String) : List (String × Value) → Option Offence
  | [] => none
  | (key, v) :: rest =>
    match offence? (child parent key) v with
    | some o => some (o.under (.key key))
    | none => inMembers? parent rest

/-- The first offence in the elements of an array from the `i`-th on. -/
def inItems? (slot : Slot) (i : Nat) : List Value → Option Offence
  | [] => none
  | v :: rest =>
    match offence? slot v with
    | some o => some (o.under (.index i))
    | none => inItems? slot (i + 1) rest

end

end Slot

end ManualPages
