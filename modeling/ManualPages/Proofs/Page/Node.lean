import ManualPages.Page.Body
import ManualPages.Proofs.Page.Setting
import Mathlib.Data.List.Basic

/-! # Nodes

Setting a block runs ten functions that call one another.  Here they are one function on one type: a
`Node` is a place of the tree that is set as a whole, its `parts` are the nodes that are set on the
way, and `Node.enter` is the state in which the first of them begins.

* `Node.induction`: what every node gets from its parts, all nodes have.
* `Node.set_eq`: one equation for the whole traversal.  A node takes its heading, sets its parts one
  after the other, and finishes with their texts.  A property of steps that these three have, and
  that is kept when steps follow one another, holds of every node, whether it is set or fails. -/

namespace ManualPages.Page

/-! ### Nodes -/

/-- A place of the tree that is set as a whole. -/
inductive Node where
  | inline (node : Inline)
  | running (content : List Inline)
  | block (context : Context) (b : Block)
  | bulletItem (i : Item)
  | numberedEntry (i : Item)
  | description (d : Description)
  | method (m : Method)
  | body (content : List Block)

namespace Node

/-- Set a node. -/
def set : Node → Setting (List Char)
  | inline node => Page.inline node
  | running content => Page.inlines content
  | block context b => Page.block context b
  | bulletItem i => Page.bulletItem i
  | numberedEntry i => Page.numberedEntry i
  | description d => Page.description d
  | method m => Page.method m
  | body content => Page.body content

/-- The nodes that are set on the way, in order.  Nothing in a footnote is. -/
def parts : Node → List Node
  | inline (.span .footnote _) => []
  | inline (.span _ content) => [running content]
  | inline (.reference _ content) => [running content]
  | inline _ => []
  | running content => content.map inline
  | block _ (.headline _ title) => [running title]
  | block _ (.paragraph content) => [running content]
  | block _ (.verbatim _) => []
  | block _ (.bulletList items) => items.map bulletItem
  | block _ (.numberedList items) => items.map numberedEntry
  | block _ (.descriptionList items) => items.map description
  | block _ (.methodList items) => items.map method
  | bulletItem i => i.blocks.map (block .bulletItem)
  | numberedEntry i => i.blocks.map (block .numberedItem)
  | description d => running d.term :: d.body.map (block .description)
  | method m => m.body.map (block .method)
  | body content => content.map (block .document)

/-- The state in which the first part begins. -/
def enter : Node → State → State
  | block _ (.numberedList _), σ => { σ with numbering := σ.numbering.enter }
  | numberedEntry _, σ => { σ with numbering := σ.numbering.next.2 }
  | _, σ => σ

/-- The size of what a node holds. -/
noncomputable def size : Node → Nat
  | inline node => sizeOf node
  | running content => sizeOf content
  | block _ b => sizeOf b
  | bulletItem i => sizeOf i
  | numberedEntry i => sizeOf i
  | description d => sizeOf d
  | method m => sizeOf m
  | body content => sizeOf content

theorem size_lt_of_mem_map {α : Type} [SizeOf α] {f : α → Node} {xs : List α} {p : Node} {k : ℕ}
    (hf : ∀ x, (f x).size = sizeOf x) (hk : sizeOf xs ≤ k) (h : p ∈ xs.map f) : p.size < k := by
  obtain ⟨x, hx, rfl⟩ := List.mem_map.mp h
  have := List.sizeOf_lt_of_mem hx
  rw [hf]
  omega

theorem size_lt_of_mem_parts {n p : Node} (h : p ∈ n.parts) : p.size < n.size := by
  rcases n with node | content | ⟨context, b⟩ | ⟨⟨blocks⟩⟩ | ⟨⟨blocks⟩⟩ | ⟨term, body⟩ | ⟨d, body⟩ |
    content
  case inline =>
    rcases node with _ | _ | ⟨role, content⟩ | ⟨target, content⟩
    case span => cases role <;> simp [parts] at h <;> subst h <;> simp [size]
    case reference =>
      obtain rfl := List.mem_singleton.mp h
      simp only [size, Inline.reference.sizeOf_spec]
      omega
    all_goals simp [parts] at h
  case running => exact size_lt_of_mem_map (fun _ => rfl) (Nat.le_refl _) h
  case block =>
    cases b
    case headline =>
      obtain rfl := List.mem_singleton.mp h
      simp only [size, Block.headline.sizeOf_spec]
      omega
    case paragraph => simp [parts] at h; subst h; simp [size]
    case verbatim => simp [parts] at h
    all_goals exact size_lt_of_mem_map (fun _ => rfl) (by simp [size]) h
  case description =>
    rcases List.mem_cons.mp h with rfl | h
    · simp [size]; omega
    · exact size_lt_of_mem_map (fun _ => rfl) (by simp [size]) h
  case body => exact size_lt_of_mem_map (fun _ => rfl) (Nat.le_refl _) h
  all_goals exact size_lt_of_mem_map (fun _ => rfl) (by simp [size]) h

/-- What every node gets from its parts, all nodes have. -/
theorem induction {P : Node → Prop} (step : ∀ n : Node, (∀ p ∈ n.parts, P p) → P n) (n : Node) :
    P n :=
  step n fun p _ => induction step p
termination_by n.size
decreasing_by exact size_lt_of_mem_parts ‹_›

end Node

/-- Set nodes one after the other. -/
def setAll : List Node → Setting (List (List Char))
  | [] => pure []
  | n :: rest => do
      let first ← n.set
      let others ← setAll rest
      pure (first :: others)

theorem setAll_append (a b : List Node) : setAll (a ++ b) = (do
    let first ← setAll a
    let others ← setAll b
    pure (first ++ others)) := by
  induction a with
  | nil => simp [setAll]
  | cons n rest ih => simp [setAll, ih]

/-! ### The functions of the traversal, on nodes -/

theorem inlines_eq (content : List Inline) :
    inlines content = List.flatten <$> setAll (content.map .inline) := by
  induction content with
  | nil => simp [inlines, setAll]
  | cons node rest ih => simp [inlines, setAll, Node.set, ih]

theorem blocks_eq (context : Context) (content : List Block) :
    blocks context content = setAll (content.map (.block context)) := by
  induction content with
  | nil => simp [blocks, setAll]
  | cons b rest ih => simp [blocks, setAll, Node.set, ih]

theorem bulletItems_eq (items : List Item) :
    bulletItems items = List.map Roff.closeFirstGap <$> setAll (items.map .bulletItem) := by
  induction items with
  | nil => simp [bulletItems, setAll]
  | cons i rest ih => simp [bulletItems, setAll, Node.set, ih]

theorem numberedItems_eq (items : List Item) :
    numberedItems items = List.flatten <$> setAll (items.map .numberedEntry) := by
  induction items with
  | nil => simp [numberedItems, setAll]
  | cons i rest ih => simp [numberedItems, setAll, Node.set, ih]

theorem descriptions_eq (items : List Description) :
    descriptions items = List.flatMap Roff.endLine <$> setAll (items.map .description) := by
  induction items with
  | nil => simp [descriptions, setAll]
  | cons d rest ih => simp [descriptions, setAll, Node.set, ih]

theorem methods_eq (items : List Method) :
    methods items = List.flatMap Roff.endLine <$> setAll (items.map .method) := by
  induction items with
  | nil => simp [methods, setAll]
  | cons m rest ih => simp [methods, setAll, Node.set, ih]

/-! ### Setting a node -/

namespace Node

/-- What an item begins with, before its parts are set: its number, or the signature of its
method. -/
def heading : Node → Setting (List Char)
  | numberedEntry _ => do
    let n ← Setting.nextNumber
    pure (".TP\n".toList ++ (toString n).toList ++ ".\n".toList)
  | method m => do
    let shown ← signature m.descriptor
    pure (".TP\n.fi\n.B\n".toList ++ Roff.escape shown)
  | _ => pure []

/-- The text of a node, from its heading and the texts of its parts. -/
def compose : Node → List Char → List (List Char) → List Char
  | inline (.text s), _, _ => Roff.escape s.toList
  | inline (.verb s), _, _ => Roff.escape s.toList
  | block _ (.headline level _), _, texts => Page.headline level texts.flatten
  | block context (.paragraph _), _, texts => Page.paragraph context texts.flatten
  | block _ (.verbatim lines), _, _ => Page.verbatim lines
  | block _ (.bulletList _), _, texts => bulleted (texts.map Roff.closeFirstGap)
  | block _ (.descriptionList _), _, texts => texts.flatMap Roff.endLine
  | block _ (.methodList _), _, texts => texts.flatMap Roff.endLine
  | bulletItem _, _, texts => texts.flatMap Roff.endLine
  | numberedEntry _, heading, texts => heading ++ Text.join ['\n'] texts
  | description _, _, texts => descriptionItem (texts.headD []) texts.tail
  | method _, heading, texts =>
    heading ++ if texts.isEmpty then [] else '\n' :: Text.join ['\n'] texts
  | _, _, texts => texts.flatten

/-- What is done when the parts are set. -/
def finish : Node → List Char → List (List Char) → Setting (List Char)
  | inline (.span role content), _, texts => span role content texts.flatten
  | inline (.reference target content), _, texts => resolve target content texts.flatten
  | n, heading, texts => pure (n.compose heading texts)

/-- A numbered list has a counter of its own. -/
def within : Node → Setting (List Char) → Setting (List Char)
  | block _ (.numberedList _), step => Setting.numbered step
  | _, step => step

theorem inline_eq (node : Inline) : Page.inline node = (do
    let texts ← setAll (parts (.inline node))
    finish (.inline node) [] texts) := by
  rcases node with s | s | ⟨role, content⟩ | ⟨target, content⟩
  case text | verb => simp [Page.inline, parts, setAll, finish, compose]
  case span => cases role <;> simp [Page.inline, parts, setAll, finish, set, span]
  case reference => simp [Page.inline, parts, setAll, finish, set]

theorem block_eq (context : Context) (b : Block) : Page.block context b =
    within (.block context b) (do
      let texts ← setAll (parts (.block context b))
      pure (compose (.block context b) [] texts)) := by
  cases b with
  | headline | paragraph => simp [Page.block, within, parts, setAll, set, compose]
  | verbatim => simp [Page.block, within, parts, setAll, compose]
  | bulletList => simp [Page.block, within, parts, compose, bulletItems_eq]
  | numberedList =>
      simp only [Page.block, within, parts, compose, numberedItems_eq, map_eq_pure_bind]
  | descriptionList => simp [Page.block, within, parts, compose, descriptions_eq]
  | methodList => simp [Page.block, within, parts, compose, methods_eq]

/-- **Setting a node.**  After its heading its parts are set one after the other, and then it is
composed of their texts. -/
theorem set_eq (n : Node) : n.set = n.within (do
    let heading ← n.heading
    let texts ← setAll n.parts
    n.finish heading texts) := by
  rcases n with node | content | ⟨context, b⟩ | ⟨⟨content⟩⟩ | ⟨⟨content⟩⟩ | ⟨term, body⟩ | ⟨d, body⟩ |
    content
  case inline => simp [set, within, heading, inline_eq]
  case running => simp [set, within, heading, parts, finish, compose, inlines_eq]
  case block => simp only [set, heading, finish, pure_bind]; exact block_eq context b
  case bulletItem =>
    simp [set, within, heading, parts, finish, compose, Page.bulletItem, blocks_eq]
  case numberedEntry =>
    rw [set, Page.numberedEntry]
    simp only [blocks_eq, within, heading, bind_assoc, pure_bind]
    rfl
  case description =>
    simp [set, within, heading, parts, finish, compose, setAll, Page.description, blocks_eq]
  case method =>
    rw [set, Page.method]
    simp only [blocks_eq, within, heading, bind_assoc, pure_bind]
    rfl
  case body => simp [set, within, heading, parts, finish, compose, Page.body, blocks_eq]

end Node

end ManualPages.Page
