import ManualPages.Document.Basic

/-! # Kinds of nodes

Every node of a document has a kind, and every kind a name, under which the node is stored.  The
kinds that may stand for a block, and those that may stand for an inline node, are `Kind.blocks` and
`Kind.inlines`; their order is part of the stored form, where a kind may be given by its place. -/

namespace ManualPages

inductive Kind where
  | document
  | headline
  | paragraph
  | verbatim
  | bulletList
  | numberedList
  | descriptionList
  | methodList
  | bulletItem
  | numberedItem
  | descriptionItem
  | methodItem
  | text
  | verb
  | emphasis
  | code
  | var
  | keyboard
  | index
  | footnote
  | reference
deriving DecidableEq, Repr

namespace Kind

/-- The name under which nodes of the kind are stored. -/
def name : Kind → String
  | document => "DocumentElement"
  | headline => "Headline"
  | paragraph => "TextBlock"
  | verbatim => "Verbatim"
  | bulletList => "ItemList"
  | numberedList => "EnumList"
  | descriptionList => "DescList"
  | methodList => "MethodList"
  | bulletItem => "ItemListItem"
  | numberedItem => "EnumListItem"
  | descriptionItem => "DescListItem"
  | methodItem => "MethodListItem"
  | text => "StringElement"
  | verb => "Verb"
  | emphasis => "Emphasis"
  | code => "Code"
  | var => "Var"
  | keyboard => "Keyboard"
  | index => "Index"
  | footnote => "Footnote"
  | reference => "Reference"

/-- The kinds of blocks. -/
def blocks : List Kind :=
  [headline, paragraph, verbatim, bulletList, numberedList, descriptionList, methodList]

/-- The kinds of inline nodes. -/
def inlines : List Kind :=
  [text, verb, emphasis, code, var, keyboard, index, footnote, reference]

/-- The kinds of list items. -/
def items : List Kind := [bulletItem, numberedItem, descriptionItem, methodItem]

/-- All kinds. -/
def all : List Kind := document :: blocks ++ items ++ inlines

theorem name_injective {a b : Kind} (h : a.name = b.name) : a = b := by
  revert h
  cases a <;> cases b <;> simp [name]

/-- The kind of that name among `kinds`. -/
def find? (kinds : List Kind) (s : String) : Option Kind := kinds.find? fun k => k.name == s

theorem find?_eq_some {kinds : List Kind} {s : String} {k : Kind} :
    find? kinds s = some k ↔ k ∈ kinds ∧ k.name = s := by
  constructor
  · intro h
    exact ⟨List.mem_of_find?_eq_some h, by simpa using List.find?_some h⟩
  · rintro ⟨hk, rfl⟩
    induction kinds with
    | nil => simp at hk
    | cons a kinds ih =>
      rw [find?, List.find?_cons]
      cases ha : a.name == k.name
      · have hne : k ≠ a := fun e => by simp [e] at ha
        exact ih (by simpa [hne] using hk)
      · have he : a = k := name_injective (by simpa using ha)
        rw [he]

end Kind

namespace Role

def kind : Role → Kind
  | emphasis => .emphasis
  | code => .code
  | var => .var
  | keyboard => .keyboard
  | index => .index
  | footnote => .footnote

end Role

namespace Inline

def kind : Inline → Kind
  | text _ => .text
  | verb _ => .verb
  | span role _ => role.kind
  | reference _ _ => .reference

theorem kind_mem_inlines (node : Inline) : node.kind ∈ Kind.inlines := by
  rcases node with _ | _ | ⟨role, _⟩ | _
  case span => cases role <;> simp [kind, Role.kind, Kind.inlines]
  all_goals simp [kind, Kind.inlines]

end Inline

namespace Block

def kind : Block → Kind
  | headline _ _ => .headline
  | paragraph _ => .paragraph
  | verbatim _ => .verbatim
  | bulletList _ => .bulletList
  | numberedList _ => .numberedList
  | descriptionList _ => .descriptionList
  | methodList _ => .methodList

end Block

end ManualPages
