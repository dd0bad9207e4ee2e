import ManualPages.Page.Render
import ManualPages.Proofs.Page.Node
import Mathlib.Logic.Relation

/-! # What a page does not show

A page does not say what a footnote holds, whether text is literal, whether a word is a variable or
keyboard input, where a reference leads, and how deep a headline is below the first level.

* `Inline.Varies`, `Block.Varies`: one change of this kind, at any depth.  Documents are `Alike` if
  a number of such changes leads from one to the other.
* `Interchangeable`: three functions walk through inline nodes: one sets them, one gives the plain
  text for faults, and one the literal text for index terms.  None of them sees such a change
  (`interchangeable_of_varies`).
* `render_eq_of_alike`: documents that are alike have the same page, or fail with the same fault,
  and record the same terms. -/

namespace ManualPages

/-! ### Changes -/

/-- Does a reference to this target lead out of the document? -/
def Target.leadsOut : Target → Bool
  | url _ => true
  | label _ (some _) => true
  | label _ none => false
  | unsupported => false

/-- One change in a node, which may be deep in its content. -/
inductive Inline.Varies : Inline → Inline → Prop
  | footnote (old new : List Inline) : Varies (.span .footnote old) (.span .footnote new)
  | toVerb (s : String) : Varies (.text s) (.verb s)
  | toText (s : String) : Varies (.verb s) (.text s)
  | toKeyboard (content : List Inline) : Varies (.span .var content) (.span .keyboard content)
  | toVar (content : List Inline) : Varies (.span .keyboard content) (.span .var content)
  | target {old new : Target} (content : List Inline) (out : old.leadsOut = true)
      (out' : new.leadsOut = true) : Varies (.reference old content) (.reference new content)
  | label (old new : String) (content : List Inline) :
      Varies (.reference (.label old none) content) (.reference (.label new none) content)
  | span {a b : Inline} (role : Role) (before after : List Inline) (inside : Varies a b) :
      Varies (.span role (before ++ a :: after)) (.span role (before ++ b :: after))
  | reference {a b : Inline} (target : Target) (before after : List Inline)
      (inside : Varies a b) : Varies (.reference target (before ++ a :: after))
        (.reference target (before ++ b :: after))

/-- One change in a block, which may be deep in its items. -/
inductive Block.Varies : Block → Block → Prop
  | level {old new : Int64} (title : List Inline) (same : old ≤ 1 ↔ new ≤ 1) :
      Varies (.headline old title) (.headline new title)
  | title {a b : Inline} (level : Int64) (before after : List Inline) (inside : a.Varies b) :
      Varies (.headline level (before ++ a :: after)) (.headline level (before ++ b :: after))
  | paragraph {a b : Inline} (before after : List Inline) (inside : a.Varies b) :
      Varies (.paragraph (before ++ a :: after)) (.paragraph (before ++ b :: after))
  | bulletItem {a b : Block} (before after : List Block) (front behind : List Item)
      (inside : Varies a b) : Varies (.bulletList (front ++ ⟨before ++ a :: after⟩ :: behind))
        (.bulletList (front ++ ⟨before ++ b :: after⟩ :: behind))
  | numberedItem {a b : Block} (before after : List Block) (front behind : List Item)
      (inside : Varies a b) : Varies (.numberedList (front ++ ⟨before ++ a :: after⟩ :: behind))
        (.numberedList (front ++ ⟨before ++ b :: after⟩ :: behind))
  | term {a b : Inline} (before after : List Inline) (body : List Block)
      (front behind : List Description) (inside : a.Varies b) :
      Varies (.descriptionList (front ++ ⟨before ++ a :: after, body⟩ :: behind))
        (.descriptionList (front ++ ⟨before ++ b :: after, body⟩ :: behind))
  | description {a b : Block} (term : List Inline) (before after : List Block)
      (front behind : List Description) (inside : Varies a b) :
      Varies (.descriptionList (front ++ ⟨term, before ++ a :: after⟩ :: behind))
        (.descriptionList (front ++ ⟨term, before ++ b :: after⟩ :: behind))
  | method {a b : Block} (descriptor : String) (before after : List Block)
      (front behind : List Method) (inside : Varies a b) :
      Varies (.methodList (front ++ ⟨descriptor, before ++ a :: after⟩ :: behind))
        (.methodList (front ++ ⟨descriptor, before ++ b :: after⟩ :: behind))

namespace Document

/-- One change in a document. -/
inductive Varies : List Block → List Block → Prop
  | block {a b : Block} (before after : List Block) (inside : a.Varies b) :
      Varies (before ++ a :: after) (before ++ b :: after)

/-- A number of changes leads from the blocks of one document to those of the other. -/
def Alike (d d' : Document) : Prop := Relation.ReflTransGen Varies d.blocks d'.blocks

end Document

namespace Page

/-! ### Running text -/

/-- Inline nodes that are set alike and have the same plain and literal text. -/
structure Interchangeable (a b : List Inline) : Prop where
  set : inlines a = inlines b
  plain : Inline.plainAll a = Inline.plainAll b
  direct : Inline.directText a = Inline.directText b

theorem interchangeable_singleton {a b : Inline} (set : inline a = inline b)
    (plain : a.plain = b.plain) (literal : a.literal? = b.literal?) :
    Interchangeable [a] [b] where
  set := by simp only [inlines, set]
  plain := by simp only [Inline.plainAll, plain]
  direct := by simp [Inline.directText, literal]

theorem inlines_append (a b : List Inline) : inlines (a ++ b) = (do
    let first ← inlines a
    let others ← inlines b
    pure (first ++ others)) := by
  simp [inlines_eq, setAll_append]

theorem directText_append (a b : List Inline) :
    Inline.directText (a ++ b) = Inline.directText a ++ Inline.directText b :=
  List.flatMap_append

theorem Interchangeable.insert {a b : Inline} (h : Interchangeable [a] [b])
    (before after : List Inline) :
    Interchangeable (before ++ a :: after) (before ++ b :: after) := by
  change Interchangeable (before ++ ([a] ++ after)) (before ++ ([b] ++ after))
  constructor
  · simp only [inlines_append, h.set]
  · simp only [Inline.plainAll_append, h.plain]
  · simp only [directText_append, h.direct]

theorem Interchangeable.span {a b : List Inline} (h : Interchangeable a b) (role : Role) :
    Interchangeable [.span role a] [.span role b] := by
  have term : indexTerm a = indexTerm b := congrArg Roff.escape h.direct
  apply interchangeable_singleton
  · cases role with
    | footnote => rfl
    | _ => simp only [inline, Page.span, h.set, term]
  · cases role with
    | footnote => rfl
    | _ => exact h.plain
  · rfl

theorem Interchangeable.reference {a b : List Inline} (h : Interchangeable a b)
    (target : Target) : Interchangeable [.reference target a] [.reference target b] := by
  apply interchangeable_singleton
  · simp only [inline, resolve, h.set, Inline.plainText, h.plain]
  · exact h.plain
  · rfl

theorem resolve_of_leadsOut {target : Target} (h : target.leadsOut = true)
    (content : List Inline) (body : List Char) : resolve target content body = pure body := by
  rcases target with url | ⟨name, _ | file⟩ | _
  case url => rfl
  case label.some => rfl
  case label.none => cases h
  case unsupported => cases h

/-- No walk through inline nodes sees a change. -/
theorem interchangeable_of_varies {a b : Inline} (h : a.Varies b) :
    Interchangeable [a] [b] := by
  induction h with
  | footnote | toVerb | toText | toKeyboard | toVar | label =>
      exact interchangeable_singleton rfl rfl rfl
  | target content out out' =>
      refine interchangeable_singleton ?_ rfl rfl
      simp only [inline, resolve_of_leadsOut out, resolve_of_leadsOut out']
  | span role before after _ ih => exact (ih.insert before after).span role
  | reference target before after _ ih => exact (ih.insert before after).reference target

/-! ### Blocks -/

theorem setAll_map_insert {α : Type} (f : α → Node) {x y : α} (h : (f x).set = (f y).set)
    (front behind : List α) :
    setAll ((front ++ x :: behind).map f) = setAll ((front ++ y :: behind).map f) := by
  rw [List.map_append, List.map_append, List.map_cons, List.map_cons, setAll_append, setAll_append,
    setAll, setAll, h]

theorem blocks_insert {context : Context} {a b : Block} (h : block context a = block context b)
    (before after : List Block) :
    blocks context (before ++ a :: after) = blocks context (before ++ b :: after) := by
  rw [blocks_eq, blocks_eq, setAll_map_insert (.block context) h]

/-- No block shows a change in it, wherever it stands. -/
theorem block_eq_of_varies {a b : Block} (h : a.Varies b) (context : Context) :
    block context a = block context b := by
  induction h generalizing context with
  | level title same => simp only [block, headline, same]
  | title level before after inside =>
      have alike := (interchangeable_of_varies inside).insert before after
      simp only [block, alike.set]
  | paragraph before after inside =>
      have alike := (interchangeable_of_varies inside).insert before after
      simp only [block, alike.set]
  | @bulletItem a b before after front behind _ ih =>
      have item : (Node.bulletItem ⟨before ++ a :: after⟩).set =
          (Node.bulletItem ⟨before ++ b :: after⟩).set := by
        simp only [Node.set, Page.bulletItem, blocks_insert (ih .bulletItem)]
      simp only [block, bulletItems_eq, setAll_map_insert .bulletItem item]
  | @numberedItem a b before after front behind _ ih =>
      have item : (Node.numberedEntry ⟨before ++ a :: after⟩).set =
          (Node.numberedEntry ⟨before ++ b :: after⟩).set := by
        simp only [Node.set, Page.numberedEntry, blocks_insert (ih .numberedItem)]
      simp only [block, numberedItems_eq, setAll_map_insert .numberedEntry item]
  | @term a b before after body front behind inside =>
      have alike := (interchangeable_of_varies inside).insert before after
      have item : (Node.description ⟨before ++ a :: after, body⟩).set =
          (Node.description ⟨before ++ b :: after, body⟩).set := by
        simp only [Node.set, Page.description, alike.set]
      simp only [block, descriptions_eq, setAll_map_insert .description item]
  | @description a b term before after front behind _ ih =>
      have item : (Node.description ⟨term, before ++ a :: after⟩).set =
          (Node.description ⟨term, before ++ b :: after⟩).set := by
        simp only [Node.set, Page.description, blocks_insert (ih .description)]
      simp only [block, descriptions_eq, setAll_map_insert .description item]
  | @method a b descriptor before after front behind _ ih =>
      have item : (Node.method ⟨descriptor, before ++ a :: after⟩).set =
          (Node.method ⟨descriptor, before ++ b :: after⟩).set := by
        simp only [Node.set, Page.method, blocks_insert (ih .method)]
      simp only [block, methods_eq, setAll_map_insert .method item]

/-! ### Documents -/

theorem body_eq_of_varies {a b : List Block} (h : Document.Varies a b) : body a = body b := by
  obtain ⟨before, after, inside⟩ := h
  unfold body
  rw [blocks_insert (block_eq_of_varies inside .document)]

theorem body_eq_of_changes {a b : List Block} (h : Relation.ReflTransGen Document.Varies a b) :
    body a = body b := by
  induction h with
  | refl => rfl
  | tail _ change ih => rw [ih, body_eq_of_varies change]

/-- **What a page does not show.**  Documents from the same source that are alike have the same
page, or fail with the same fault.  Set after other documents, they have the same result, too, and
leave the same index. -/
theorem render_eq_of_alike {d d' : Document} (source : d.sourceName? = d'.sourceName?)
    (alike : d.Alike d') (style : Style) : render style d = render style d' ∧
      ∀ σ, ((fresh style d).runFrom σ).1 = ((fresh style d').runFrom σ).1 ∧
        ((fresh style d).runFrom σ).2.index = ((fresh style d').runFrom σ).2.index := by
  have same : fresh style d = fresh style d' := by
    unfold fresh page titleLine
    rw [body_eq_of_changes alike, source]
  unfold render
  rw [same]
  exact ⟨rfl, fun σ => ⟨rfl, rfl⟩⟩

/-- A headline below the second level, another footnote, which could not be set itself, and another
target, in an item. -/
theorem render_eq_of_three_changes :
    Document.Alike
      ⟨none, [.headline 2 [.text "a"], .bulletList [⟨[.paragraph [.span .footnote [],
        .reference (.url "u") [.text "b"]]]⟩]]⟩
      ⟨none, [.headline 3 [.text "a"], .bulletList [⟨[.paragraph
        [.span .footnote [.reference .unsupported []],
          .reference (.label "l" (some "f")) [.text "b"]]]⟩]]⟩ ∧
    ∀ style, render style ⟨none, [.headline 2 [.text "a"], .bulletList [⟨[.paragraph
        [.span .footnote [], .reference (.url "u") [.text "b"]]]⟩]]⟩ =
      render style ⟨none, [.headline 3 [.text "a"], .bulletList [⟨[.paragraph
        [.span .footnote [.reference .unsupported []],
          .reference (.label "l" (some "f")) [.text "b"]]]⟩]]⟩ := by
  have alike : Document.Alike
      ⟨none, [.headline 2 [.text "a"], .bulletList [⟨[.paragraph [.span .footnote [],
        .reference (.url "u") [.text "b"]]]⟩]]⟩
      ⟨none, [.headline 3 [.text "a"], .bulletList [⟨[.paragraph
        [.span .footnote [.reference .unsupported []],
          .reference (.label "l" (some "f")) [.text "b"]]]⟩]]⟩ := by
    have level := Document.Varies.block [] [.bulletList [⟨[.paragraph [.span .footnote [],
      .reference (.url "u") [.text "b"]]]⟩]]
      (@Block.Varies.level 2 3 [.text "a"] (by decide))
    have footnote := Document.Varies.block [.headline 3 [.text "a"]] []
      (.bulletItem [] [] [] [] (.paragraph [] [.reference (.url "u") [.text "b"]]
        (.footnote [] [.reference .unsupported []])))
    have target := Document.Varies.block [.headline 3 [.text "a"]] []
      (.bulletItem [] [] [] [] (.paragraph [.span .footnote [.reference .unsupported []]] []
        (@Inline.Varies.target (.url "u") (.label "l" (some "f")) [.text "b"] rfl rfl)))
    exact ((Relation.ReflTransGen.single level).tail footnote).tail target
  exact ⟨alike, fun style => (render_eq_of_alike (by rfl) alike style).1⟩

end Page

end ManualPages
