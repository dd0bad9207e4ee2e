import ManualPages.Document.Load
import ManualPages.Proofs.Document.Decode
import ManualPages.Proofs.Document.Slot

/-! # Storing and loading

What `Document.toValue` stores is loaded as the same document: nothing in it is misplaced
(`offence?_toValue`), and it is read back as it was (`Decode.document_toValue`). -/

namespace ManualPages

open Json (Value Members)
open Slot

/-! ### Nothing is misplaced -/

theorem offence?_tagged {slot : Slot} {members : Members} (kind : Kind) (hk : kind ∈ slot.kinds)
    (ht : typeName? members = some kind.name)
    (hm : ∀ m ∈ members, offence? (child (some kind.name) m.1) m.2 = none) :
    offence? slot (.object members) = none := by
  rw [offence?_object_eq_none_iff, ht]
  refine ⟨fun name h => ?_, hm⟩
  cases h
  exact allows_iff.mpr hk

/-- An object that may name an admitted kind, and whose members stand in the same slots either
way. -/
theorem offence?_optional {slot : Slot} (tagging : Tagging) (kind : Kind) (members : Members)
    (hk : kind ∈ slot.kinds) (ht : members.get? "type" = none)
    (hm : ∀ m ∈ members, ∀ parent, offence? (child parent m.1) m.2 = none) :
    offence? slot (.object (members ++ tagging.optional kind)) = none := by
  cases tagging with
  | needed =>
      have hn : typeName? members = none := by
        rw [typeName?, ht]
        rfl
      rw [Tagging.optional, List.append_nil, offence?_object_eq_none_iff, hn]
      exact ⟨by simp, fun m h => hm m h none⟩
  | everywhere =>
      have hs : typeName? (members ++ Tagging.everywhere.optional kind) = some kind.name := by
        have hf : members.find? (fun m => m.1 == "type") = none := by
          simpa [Members.get?] using ht
        simp [typeName?, Members.get?, List.find?_append, hf, Tagging.optional, Value.text?]
      refine offence?_tagged kind hk hs fun m h => ?_
      rcases List.mem_append.mp h with h | h
      · exact hm m h _
      · rw [List.mem_singleton.mp h]
        rfl

theorem offence?_array_member {slot : Slot} (kind : Kind) (key : String) {items : List Value}
    (hk : kind ∈ slot.kinds) (ht : key ≠ "type")
    (hi : ∀ v ∈ items, offence? (child (some kind.name) key) v = none) :
    offence? slot (.object [(key, .array items), typeMember kind]) = none := by
  have hs : typeName? [(key, .array items), typeMember kind] = some kind.name := by
    rw [typeName?, Members.get?_cons, if_neg ht]
    rfl
  refine offence?_tagged kind hk hs ?_
  simp only [List.forall_mem_cons]
  exact ⟨offence?_array_eq_none_iff.mpr hi, rfl, by simp⟩

mutual

theorem offence?_inline : ∀ node : Inline, offence? .inline node.toValue = none
  | .text _ => rfl
  | .verb _ => rfl
  | .span role content => by
      have hk := (Inline.span role content).kind_mem_inlines
      exact offence?_array_member role.kind "content" hk (by decide) (offence?_inlines content)
  | .reference target content => by
      refine offence?_tagged .reference (by decide) rfl ?_
      simp only [List.forall_mem_cons]
      refine ⟨offence?_array_eq_none_iff.mpr (offence?_inlines content), ?_, rfl, by simp⟩
      rcases target with _ | ⟨_, _ | _⟩ | _ <;> rfl

theorem offence?_inlines :
    ∀ content : List Inline, ∀ v ∈ Inline.toValues content, offence? .inline v = none
  | [] => by simp [Inline.toValues]
  | node :: rest => by
      rw [Inline.toValues, List.forall_mem_cons]
      exact ⟨offence?_inline node, offence?_inlines rest⟩

end

theorem offence?_strings (slot : Slot) (lines : List String) :
    ∀ v ∈ lines.map Value.string, offence? slot v = none := by
  intro v hv
  obtain ⟨line, -, rfl⟩ := List.mem_map.mp hv
  rfl

mutual

theorem offence?_block (tagging : Tagging) :
    ∀ b : Block, offence? .block (b.toValue tagging) = none
  | .headline n title => by
      refine offence?_tagged .headline (by decide) rfl ?_
      simp only [List.forall_mem_cons]
      exact ⟨offence?_array_eq_none_iff.mpr (offence?_inlines title), rfl, rfl, by simp⟩
  | .paragraph content =>
      offence?_array_member .paragraph "content" (by decide) (by decide) (offence?_inlines content)
  | .verbatim lines =>
      offence?_array_member .verbatim "lines" (by decide) (by decide) (offence?_strings _ lines)
  | .bulletList items =>
      offence?_array_member .bulletList "items" (by decide) (by decide)
        (offence?_items tagging .bulletItem items)
  | .numberedList items =>
      offence?_array_member .numberedList "items" (by decide) (by decide)
        (offence?_items tagging .numberedItem items)
  | .descriptionList items =>
      offence?_array_member .descriptionList "items" (by decide) (by decide)
        (offence?_descriptions tagging items)
  | .methodList items =>
      offence?_array_member .methodList "items" (by decide) (by decide)
        (offence?_methods tagging items)

theorem offence?_blocks (tagging : Tagging) :
    ∀ content : List Block, ∀ v ∈ Block.toValues tagging content, offence? .block v = none
  | [] => by simp [Block.toValues]
  | b :: rest => by
      rw [Block.toValues, List.forall_mem_cons]
      exact ⟨offence?_block tagging b, offence?_blocks tagging rest⟩

theorem offence?_items (tagging : Tagging) (kind : Kind) : ∀ items : List Item,
    ∀ v ∈ Block.itemValues tagging kind items, offence? (.item kind) v = none
  | [] => by simp [Block.itemValues]
  | ⟨content⟩ :: rest => by
      rw [Block.itemValues, List.forall_mem_cons]
      refine ⟨?_, offence?_items tagging kind rest⟩
      refine offence?_optional tagging kind [_] (List.mem_singleton_self kind) rfl ?_
      simp only [List.forall_mem_cons]
      exact ⟨fun _ => offence?_array_eq_none_iff.mpr (offence?_blocks tagging content), by simp⟩

theorem offence?_descriptions (tagging : Tagging) : ∀ items : List Description,
    ∀ v ∈ Block.descriptionValues tagging items, offence? (.item .descriptionItem) v = none
  | [] => by simp [Block.descriptionValues]
  | ⟨term, body⟩ :: rest => by
      rw [Block.descriptionValues, List.forall_mem_cons]
      refine ⟨?_, offence?_descriptions tagging rest⟩
      refine offence?_optional tagging .descriptionItem [_, _] (List.mem_singleton_self _) rfl ?_
      simp only [List.forall_mem_cons]
      exact ⟨fun _ => offence?_array_eq_none_iff.mpr (offence?_blocks tagging body),
        fun _ => offence?_array_eq_none_iff.mpr (offence?_inlines term), by simp⟩

theorem offence?_methods (tagging : Tagging) : ∀ items : List Method,
    ∀ v ∈ Block.methodValues tagging items, offence? (.item .methodItem) v = none
  | [] => by simp [Block.methodValues]
  | ⟨descriptor, body⟩ :: rest => by
      rw [Block.methodValues, List.forall_mem_cons]
      refine ⟨?_, offence?_methods tagging rest⟩
      refine offence?_optional tagging .methodItem [_, _] (List.mem_singleton_self _) rfl ?_
      simp only [List.forall_mem_cons]
      exact ⟨fun _ => offence?_array_eq_none_iff.mpr (offence?_blocks tagging body), fun _ => rfl,
        by simp⟩

end

theorem offence?_toValue (tagging : Tagging) (d : Document) :
    offence? .root (d.toValue tagging) = none := by
  have hb : ∀ parent, offence? (child parent "blocks")
      (.array (Block.toValues tagging d.blocks)) = none :=
    fun _ => offence?_array_eq_none_iff.mpr (offence?_blocks tagging d.blocks)
  unfold Document.toValue
  cases d.sourceName? with
  | none =>
      refine offence?_optional tagging .document [_] (by decide) rfl ?_
      simp only [List.forall_mem_cons]
      exact ⟨hb, by simp⟩
  | some name =>
      refine offence?_optional tagging .document [_, _] (by decide) rfl ?_
      simp only [List.forall_mem_cons]
      exact ⟨hb, fun _ => rfl, by simp⟩

/-! ### Loading -/

/-- **Storing and loading.**  The stored form of a document passes the check of its kinds and is
loaded as that document, whether or not it names the kinds that it need not name. -/
theorem ofValue_toValue (tagging : Tagging) (d : Document) :
    offence? .root (d.toValue tagging) = none ∧ Document.ofValue (d.toValue tagging) = .ok d := by
  have checked := offence?_toValue tagging d
  refine ⟨checked, ?_⟩
  rw [Document.ofValue, checked, Decode.document_toValue]

end ManualPages
