import ManualPages.Document.Decode
import ManualPages.Document.Wire

/-! # Reading back what is stored

The stored form of a node is read as that node, whatever else the node stands in: for inline nodes
and blocks in every place, and for the items of lists and the document with or without the kinds
that need not be named.  Each induction follows the writer; what the reader does with an object of a
given kind is evaluated, down to the arrays that the induction is about. -/

namespace ManualPages.Decode

open Json (Value Members)

/-! ### Fields -/

theorem level_toInt (n : Int64) : level (.number (.integer n.toInt)) = .ok n := by
  rw [level, if_pos n.toInt_le, Int64.ofInt_toInt]

theorem strings_map (lines : List String) : strings (lines.map .string) = .ok lines := by
  induction lines with
  | nil => rfl
  | cons line rest ih =>
      rw [List.map_cons, strings, ih]
      rfl

/-! ### Inline nodes -/

theorem inline_span (place : Place) (role : Role) (content : List Inline) :
    inline place (Inline.toValue (.span role content)) =
      (inlineItems .inside (Inline.toValues content)).map (.span role) := by
  cases role <;> rfl

/-- A stored target is read whatever it is: what has no meaning is stored so that it has none. -/
theorem inline_reference (place : Place) (t : Target) (content : List Inline) :
    inline place (Inline.toValue (.reference t content)) =
      (inlineItems .inside (Inline.toValues content)).map (.reference t) := by
  rcases t with url | ⟨name, _ | file⟩ | _ <;> rfl

mutual

theorem inline_toValue (place : Place) : ∀ node : Inline, inline place node.toValue = .ok node
  | .text s => rfl
  | .verb s => rfl
  | .span role content => by
      rw [inline_span, inlineItems_toValues]
      rfl
  | .reference t content => by
      rw [inline_reference, inlineItems_toValues]
      rfl

theorem inlineItems_toValues (place : Place) :
    ∀ content : List Inline, inlineItems place (Inline.toValues content) = .ok content
  | [] => rfl
  | node :: rest => by
      rw [Inline.toValues, inlineItems, inline_toValue place node, inlineItems_toValues place rest]
      rfl

end

/-! ### Blocks -/

theorem block_headline (place : Place) (tagging : Tagging) (n : Int64) (title : List Inline) :
    block place (Block.toValue tagging (.headline n title)) = .ok (.headline n title) := by
  show ((inlineItems .inside (Inline.toValues title)).map some).bind (fun title =>
    ((level (.number (.integer n.toInt))).map some).bind fun n =>
      (required "level" n).map fun n => Block.headline n (title.getD [])) = _
  rw [inlineItems_toValues, level_toInt]
  rfl

theorem block_paragraph (place : Place) (tagging : Tagging) (content : List Inline) :
    block place (Block.toValue tagging (.paragraph content)) = .ok (.paragraph content) := by
  show ((inlineItems .inside (Inline.toValues content)).map some).map (fun content =>
    Block.paragraph (content.getD [])) = _
  rw [inlineItems_toValues]
  rfl

theorem block_verbatim (place : Place) (tagging : Tagging) (texts : List String) :
    block place (Block.toValue tagging (.verbatim texts)) = .ok (.verbatim texts) := by
  show ((strings (texts.map .string)).map some).map (fun texts =>
    Block.verbatim (texts.getD [])) = _
  rw [strings_map]
  rfl

mutual

theorem block_toValue (tagging : Tagging) (place : Place) :
    ∀ b : Block, block place (b.toValue tagging) = .ok b
  | .headline n title => block_headline place tagging n title
  | .paragraph content => block_paragraph place tagging content
  | .verbatim lines => block_verbatim place tagging lines
  | .bulletList items => by
      show (itemItems .bulletItem (Block.itemValues tagging .bulletItem items)).map
        Block.bulletList = _
      rw [itemItems_itemValues]
      rfl
  | .numberedList items => by
      show (itemItems .numberedItem (Block.itemValues tagging .numberedItem items)).map
        Block.numberedList = _
      rw [itemItems_itemValues]
      rfl
  | .descriptionList items => by
      show (descriptionItems (Block.descriptionValues tagging items)).map Block.descriptionList = _
      rw [descriptionItems_descriptionValues]
      rfl
  | .methodList items => by
      show (methodItems (Block.methodValues tagging items)).map Block.methodList = _
      rw [methodItems_methodValues]
      rfl

theorem blockItems_toValues (tagging : Tagging) (place : Place) :
    ∀ content : List Block, blockItems place (Block.toValues tagging content) = .ok content
  | [] => rfl
  | b :: rest => by
      rw [Block.toValues, blockItems, block_toValue tagging place b,
        blockItems_toValues tagging place rest]
      rfl

theorem itemItems_itemValues (tagging : Tagging) (kind : Kind) :
    ∀ items : List Item, itemItems kind (Block.itemValues tagging kind items) = .ok items
  | [] => rfl
  | ⟨content⟩ :: rest => by
      rw [Block.itemValues, itemItems, itemItems_itemValues tagging kind rest]
      show ((blockItems .inside (Block.toValues tagging content)).map Item.mk).map (· :: rest) = _
      rw [blockItems_toValues tagging .inside content]
      rfl

theorem descriptionItems_descriptionValues (tagging : Tagging) : ∀ items : List Description,
    descriptionItems (Block.descriptionValues tagging items) = .ok items
  | [] => rfl
  | ⟨term, body⟩ :: rest => by
      rw [Block.descriptionValues, descriptionItems,
        descriptionItems_descriptionValues tagging rest]
      show ((blockItems .inside (Block.toValues tagging body)).bind fun body =>
        ((inlineItems .inside (Inline.toValues term)).map some).map fun term =>
          Description.mk (term.getD []) body).map (· :: rest) = _
      rw [blockItems_toValues tagging .inside body, inlineItems_toValues]
      rfl

theorem methodItems_methodValues (tagging : Tagging) : ∀ items : List Method,
    methodItems (Block.methodValues tagging items) = .ok items
  | [] => rfl
  | ⟨descriptor, body⟩ :: rest => by
      rw [Block.methodValues, methodItems, methodItems_methodValues tagging rest]
      show ((blockItems .inside (Block.toValues tagging body)).map fun body =>
        Method.mk descriptor body).map (· :: rest) = _
      rw [blockItems_toValues tagging .inside body]
      rfl

end

/-- A document is read back from its stored form. -/
theorem document_toValue (tagging : Tagging) (d : Document) :
    document (d.toValue tagging) = .ok d := by
  rcases d with ⟨_ | name, content⟩
  all_goals
    cases tagging
    all_goals
      show ((blockItems .outside (Block.toValues _ content)).map some).bind _ = _
      rw [blockItems_toValues]
      rfl

end ManualPages.Decode
