import ManualPages.Proofs.Page.Traversal
import ManualPages.Proofs.Roff.Token

/-! # Pages are well-formed

* `Composed.wellFormed`: what a node makes of well-formed texts is well-formed.
* `Node.wellFormed_of_yields`: so is everything that is set: the source can be read to its end, and
  every font that it selects is left again, within the node that selects it. -/

namespace ManualPages.Page

open Setting
open Roff (WellFormed)

/-! ### The pieces of a page -/

theorem wellFormed_headline (level : Int64) {title : List Char} (h : WellFormed title) :
    WellFormed (headline level title) := by
  have mark : WellFormed (if level ≤ 1 then ".SH ".toList else ".SS ".toList) := by
    split
    · exact Roff.wellFormed_of_ordinary (by decide)
    · exact Roff.wellFormed_of_ordinary (by decide)
  exact (mark.append h).append (Roff.wellFormed_of_ordinary (by decide))

theorem wellFormed_paragraph (context : Context) {s : List Char} (h : WellFormed s) :
    WellFormed (paragraph context s) := by
  unfold paragraph
  split
  · exact (Roff.wellFormed_of_ordinary (by decide)).append h
  · exact h

theorem wellFormed_verbatimLine (line : String) : WellFormed (verbatimLine line) := by
  have mark : WellFormed Roff.zeroWidth := Roff.wellFormed_text (t := .zeroWidth) rfl
  have indent : WellFormed "    ".toList := Roff.wellFormed_of_ordinary (by decide)
  exact ((mark.append indent).append (Roff.wellFormed_escape _)).append
    (Roff.wellFormed_of_ordinary (by decide))

theorem wellFormed_verbatim (lines : List String) : WellFormed (verbatim lines) := by
  have opening : WellFormed ".nf\n".toList := Roff.wellFormed_of_ordinary (by decide)
  have closing : WellFormed ".fi\n".toList := Roff.wellFormed_of_ordinary (by decide)
  refine (opening.append (.flatten fun t ht => ?_)).append closing
  obtain ⟨line, -, rfl⟩ := List.mem_map.mp ht
  exact wellFormed_verbatimLine line

theorem wellFormed_bullet : WellFormed bullet := by
  have opening : WellFormed ".IP\n.B\n".toList := Roff.wellFormed_of_ordinary (by decide)
  have glyph : WellFormed "\\(bu".toList := Roff.wellFormed_text (t := .bullet) rfl
  exact (opening.append glyph).append (Roff.wellFormed_of_ordinary (s := ['\n']) (by decide))

theorem wellFormed_bulleted {texts : List (List Char)} (h : ∀ t ∈ texts, WellFormed t) :
    WellFormed (bulleted texts) :=
  wellFormed_bullet.append (.join wellFormed_bullet h)

theorem wellFormed_blocks {texts : List (List Char)} (h : ∀ t ∈ texts, WellFormed t) :
    WellFormed (Text.join ['\n'] texts) :=
  .join (Roff.wellFormed_of_ordinary (by decide)) h

theorem wellFormed_numberedItem (n : ℕ) {texts : List (List Char)}
    (h : ∀ t ∈ texts, WellFormed t) : WellFormed (numberedItem n texts) := by
  have opening : WellFormed ".TP\n".toList := Roff.wellFormed_of_ordinary (by decide)
  have point : WellFormed ".\n".toList := Roff.wellFormed_of_ordinary (by decide)
  have number : WellFormed (toString n).toList := by
    refine Roff.wellFormed_of_ordinary ⟨fun h => ?_, fun h => ?_⟩
    · exact absurd (isDigit_of_mem_toString h) (by decide)
    · exact absurd (isDigit_of_mem_toString h) (by decide)
  exact ((opening.append number).append point).append (wellFormed_blocks h)

theorem wellFormed_termItem {term : List Char} {texts : List (List Char)}
    (hterm : WellFormed term) (h : ∀ t ∈ texts, WellFormed t) :
    WellFormed (termItem term texts) := by
  have opening : WellFormed ".TP\n.fi\n.B\n".toList := Roff.wellFormed_of_ordinary (by decide)
  have newline : WellFormed ['\n'] := Roff.wellFormed_of_ordinary (by decide)
  unfold termItem
  refine (opening.append hterm).append ?_
  split
  · exact Roff.wellFormed_nil
  · exact newline.append (wellFormed_blocks h)

theorem wellFormed_descriptionItem {term : List Char} {texts : List (List Char)}
    (hterm : WellFormed term) (h : ∀ t ∈ texts, WellFormed t) :
    WellFormed (descriptionItem term texts) := by
  unfold descriptionItem
  split
  · exact wellFormed_termItem hterm h
  · exact (wellFormed_termItem hterm h).chomp

/-- A reference loses whole characters, and none of them is part of an escape. -/
theorem wellFormed_stripFront {t : List Char} (h : WellFormed t) :
    WellFormed ((Text.stripFront functionMark t).getD t) := by
  cases hs : Text.stripFront functionMark t with
  | none => exact h
  | some r =>
      rw [Text.stripFront_eq_some.mp hs] at h
      exact h.of_append (by decide)

/-! ### Nodes -/

/-- What a node makes of well-formed texts is well-formed. -/
theorem Composed.wellFormed {σ τ τ' : State} {n : Node} {texts : List (List Char)} {s : List Char}
    (h : Composed σ n τ texts s τ') (parts : ∀ t ∈ texts, WellFormed t) : WellFormed s := by
  cases h with
  | text | verb => exact Roff.wellFormed_escape _
  | emphasis => exact (parts _ (by simp)).italic
  | code | newEntry => exact (parts _ (by simp)).bold
  | var | keyboard | url | otherFile => exact parts _ (by simp)
  | sameFile => exact wellFormed_stripFront (parts _ (by simp))
  | oldEntry | footnote => exact Roff.wellFormed_nil
  | running | numberedList | body => exact .flatten parts
  | headline => exact wellFormed_headline _ (parts _ (by simp))
  | paragraph => exact wellFormed_paragraph _ (parts _ (by simp))
  | verbatim => exact wellFormed_verbatim _
  | bulletList =>
      refine wellFormed_bulleted fun t ht => ?_
      obtain ⟨u, hu, rfl⟩ := List.mem_map.mp ht
      exact (parts u hu).closeFirstGap
  | descriptionList | methodList | bulletItem =>
      refine .flatten fun t ht => ?_
      obtain ⟨u, hu, rfl⟩ := List.mem_map.mp ht
      exact (parts u hu).endLine
  | numberedEntry => exact wellFormed_numberedItem _ parts
  | description =>
      exact wellFormed_descriptionItem (parts _ (by simp)) fun t ht => parts t (by simp [ht])
  | method => exact wellFormed_termItem (Roff.wellFormed_escape _) parts

/-- **Pages are well-formed.**  Whatever is set, be it a body, a block in any context or running
text, its source can be read to the end, and its font marks are balanced. -/
theorem Node.wellFormed_of_yields {n : Node} {σ τ : State} {s : List Char}
    (h : n.set.Yields σ s τ) : WellFormed s := by
  refine Node.yields_induction (Q := fun _ t => WellFormed t) h ?_
  intro m σ₁ t σ₂ texts σ₃ _ _ _ hc parts
  refine hc.wellFormed fun u hu => ?_
  obtain ⟨_, hw⟩ := Roff.exists_rel_of_mem parts hu
  exact hw

/-- Text that spells an escape, in code within code: the point is escaped twice. -/
theorem wellFormed_nested_code :
    (body [.paragraph [.span .code [.span .code [.text "\\fB-.x"]]]]).Yields .initial
      ".PP\n\\&\\fB\\&\\fB\\\\fB\\-\\\\.x\\fP\\fP".toList .initial ∧
    WellFormed ".PP\n\\&\\fB\\&\\fB\\\\fB\\-\\\\.x\\fP\\fP".toList := by
  have run : (body [.paragraph [.span .code [.span .code [.text "\\fB-.x"]]]]).Yields .initial
      ".PP\n\\&\\fB\\&\\fB\\\\fB\\-\\\\.x\\fP\\fP".toList .initial := rfl
  exact ⟨run, Node.wellFormed_of_yields (n := .body _) run⟩

end ManualPages.Page
