import ManualPages.Text.Blank
import ManualPages.Text.Split

/-! # Method signatures

A method is described in the shorthand `Owner#name(args)`, `Owner.name args`, `Owner::name` or just
`name(args)`.  `Signature.parse` splits a descriptor into its parts, and `Signature.show?` writes
them down again, the subscript operators in the form in which they are called:
`Owner#[](i)` as `Owner#[i]`, and `Owner#[]=(i, v)` as `Owner#[i] = v`. -/

namespace ManualPages

/-- How a method relates to its owner: it belongs to the owner's instances, or to the owner itself,
or there is no owner. -/
inductive Relation where
  | ofInstance
  | ofModule
  | function
deriving DecidableEq, Repr

namespace Relation

/-- What stands between owner and name. -/
def separator : Relation → List Char
  | ofInstance => ['#']
  | ofModule => ['.']
  | function => []

end Relation

/-- The parts of a descriptor; the arguments are everything after the name. -/
structure Signature where
  owner : List Char
  relation : Relation
  name : List Char
  args : List Char
deriving DecidableEq, Repr

namespace Signature

/-- Does the character end the name? -/
def endsHead (c : Char) : Bool := c == '(' || c == '{' || Text.isBlank c

/-- An owner and a name, unless one is empty: then there is no owner, and the name is what follows
the separator or, if nothing does, everything. -/
def attach (relation : Relation) (owner name head : List Char) :
    List Char × Relation × List Char :=
  if owner = [] then ([], .function, name)
  else if name = [] then ([], .function, head)
  else (owner, relation, name)

/-- Split at the later of the last `.` and the last `::`. -/
def splitModule (head : List Char) : Option (List Char × List Char) :=
  match Text.splitLast ['.'] head, Text.splitLast [':', ':'] head with
  | some dot, some colons => some (if colons.1.length < dot.1.length then dot else colons)
  | some dot, none => some dot
  | none, colons => colons

/-- Split at the first `#`, or else at the last `.` or `::`. -/
def splitOwner (head : List Char) : List Char × Relation × List Char :=
  match Text.splitFirst ['#'] head with
  | some (owner, name) => attach .ofInstance owner name head
  | none =>
    match splitModule head with
    | some (owner, name) => attach .ofModule owner name head
    | none => ([], .function, head)

/-- The parts of a descriptor, blanks around it aside. -/
def parse (descriptor : List Char) : Signature :=
  let text := Text.trim descriptor
  let (owner, relation, name) := splitOwner (text.takeWhile fun c => !endsHead c)
  ⟨owner, relation, name, text.dropWhile fun c => !endsHead c⟩

/-- Arguments without one enclosing pair of parentheses, and without blanks around them. -/
def withoutParens (args : List Char) : List Char :=
  let args := Text.trim args
  match (Text.stripFront ['('] args).bind (Text.stripBack [')']) with
  | some inner => Text.trim inner
  | none => Text.trim args

/-- The owner and what follows it. -/
def ownerText (s : Signature) : List Char := match s.relation with
  | .function => []
  | relation => s.owner ++ relation.separator

/-- The signature as it is shown; `none` for a subscript assignment without a comma between index
and value. -/
def show? (s : Signature) : Option (List Char) :=
  if s.name = ['[', ']'] then some (s.ownerText ++ '[' :: withoutParens s.args ++ [']'])
  else if s.name = ['[', ']', '='] then
    match Text.splitLast [','] (withoutParens s.args) with
    | some (index, value) =>
      some (s.ownerText ++ '[' :: Text.trim index ++ [']', ' ', '=', ' '] ++ Text.trim value)
    | none => none
  else some (s.ownerText ++ s.name ++ s.args)

end Signature

end ManualPages
