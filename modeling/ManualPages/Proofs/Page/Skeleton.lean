import ManualPages.Proofs.Page.ControlLine
import ManualPages.Proofs.Page.Verbatim
import ManualPages.Proofs.Roff.Macro

/-! # The macros of a page

`skeleton` reads off a list of blocks the macros that they call, whatever their texts are.

* `Composed.framed`: each kind of node calls its macros if its parts do, and ends its last line
  where something may follow it.
* `forall₂_reads_skeleton`: the lines of a body that begin with a point are the skeleton of its
  blocks.  Paragraphs have to end their last line, and no reference within the document may have
  lost a `function#`. -/

namespace ManualPages.Page

open Setting
open Roff (Macro Calls Frames EndsLine)

/-! ### The skeleton of a tree -/

mutual

/-- The macros that a block calls. -/
def blockMacros (context : Context) : Block → List Macro
  | .headline level _ => [if level ≤ 1 then .sectionHead else .subsectionHead]
  | .paragraph _ => if context = .document ∨ context = .method then [.paragraph] else []
  | .verbatim _ => [.noFill, .fill]
  | .bulletList items => if items.isEmpty then [.indented, .bold] else bulletMacros items
  | .numberedList items => numberMacros items
  | .descriptionList items => descriptionMacros items
  | .methodList items => methodMacros items

/-- The macros that blocks call, one after the other. -/
def skeleton (context : Context) : List Block → List Macro
  | [] => []
  | b :: rest => blockMacros context b ++ skeleton context rest

def bulletMacros : List Item → List Macro
  | [] => []
  | ⟨content⟩ :: rest => .indented :: .bold :: skeleton .bulletItem content ++ bulletMacros rest

def numberMacros : List Item → List Macro
  | [] => []
  | ⟨content⟩ :: rest => .tagged :: skeleton .numberedItem content ++ numberMacros rest

def descriptionMacros : List Description → List Macro
  | [] => []
  | ⟨_, content⟩ :: rest =>
    .tagged :: .fill :: .bold :: skeleton .description content ++ descriptionMacros rest

def methodMacros : List Method → List Macro
  | [] => []
  | ⟨_, content⟩ :: rest =>
    .tagged :: .fill :: .bold :: skeleton .method content ++ methodMacros rest

end

theorem skeleton_eq (context : Context) (content : List Block) :
    skeleton context content = content.flatMap (blockMacros context) := by
  induction content with
  | nil => rw [skeleton, List.flatMap_nil]
  | cons b rest ih => rw [skeleton, ih, List.flatMap_cons]

theorem bulletMacros_eq (items : List Item) : bulletMacros items =
    items.flatMap fun i => .indented :: .bold :: skeleton .bulletItem i.blocks := by
  induction items with
  | nil => rw [bulletMacros, List.flatMap_nil]
  | cons i rest ih =>
      cases i
      rw [bulletMacros, ih, List.flatMap_cons]

theorem numberMacros_eq (items : List Item) : numberMacros items =
    items.flatMap fun i => .tagged :: skeleton .numberedItem i.blocks := by
  induction items with
  | nil => rw [numberMacros, List.flatMap_nil]
  | cons i rest ih =>
      cases i
      rw [numberMacros, ih, List.flatMap_cons]

theorem descriptionMacros_eq (items : List Description) : descriptionMacros items =
    items.flatMap fun d => .tagged :: .fill :: .bold :: skeleton .description d.body := by
  induction items with
  | nil => rw [descriptionMacros, List.flatMap_nil]
  | cons d rest ih =>
      cases d
      rw [descriptionMacros, ih, List.flatMap_cons]

theorem methodMacros_eq (items : List Method) : methodMacros items =
    items.flatMap fun m => .tagged :: .fill :: .bold :: skeleton .method m.body := by
  induction items with
  | nil => rw [methodMacros, List.flatMap_nil]
  | cons m rest ih =>
      cases m
      rw [methodMacros, ih, List.flatMap_cons]

/-! ### The macros of each kind of text -/

theorem calls_headline (level : Int64) {title : List Char}
    (h : Roff.hasControl true title = false) :
    Calls [if level ≤ 1 then .sectionHead else .subsectionHead] (headline level title) := by
  have ht : Roff.hasControl true (title ++ ['\n']) = false := by
    rw [Roff.hasControl_append, h, Roff.hasControl_of_any (by decide)]
    rfl
  unfold headline
  rw [List.append_assoc]
  split
  · exact .headline (fun l => List.prefix_append _ l) (by decide) (by decide) ht
  · exact .headline (fun l => List.prefix_append _ l) (by decide) (by decide) ht

theorem frames_paragraph (context : Context) (content : List Inline) {s : List Char}
    (ended : EndsLine s) (h : Roff.hasControl true s = false) :
    Frames (blockMacros context (.paragraph content)) (paragraph context s) := by
  have shown : Frames [] s := ⟨ended, Calls.nil_iff.mpr h⟩
  have opening : Frames [.paragraph] ".PP\n".toList := ⟨.inr (by decide), .cons rfl .nil⟩
  rw [blockMacros, paragraph]
  cases context
  case document | method => exact opening.append shown
  all_goals exact shown

theorem frames_verbatimLine (line : String) : Frames [] (verbatimLine line) := by
  have text : Calls [] (verbatimText line) := Calls.nil_iff.mpr (hasControl_verbatimText line)
  exact Calls.newline text

theorem frames_verbatim (lines : List String) : Frames [.noFill, .fill] (verbatim lines) := by
  have opening : Frames [.noFill] ".nf\n".toList := ⟨.inr (by decide), .cons rfl .nil⟩
  have closing : Frames [.fill] ".fi\n".toList := ⟨.inr (by decide), .cons rfl .nil⟩
  have shown : Frames [] (lines.flatMap verbatimLine) := by
    induction lines with
    | nil => exact ⟨.inl rfl, .nil⟩
    | cons line rest ih => exact (frames_verbatimLine line).append ih
  exact (opening.append shown).append closing

theorem bulleted_of_ne_nil {texts : List (List Char)} (h : texts ≠ []) :
    bulleted texts = (texts.map (bullet ++ ·)).flatten := by
  unfold bulleted
  induction texts with
  | nil => exact absurd rfl h
  | cons t rest ih =>
      cases rest with
      | nil => simp
      | cons t' rest =>
          rw [Text.join_cons_cons, List.map_cons, List.flatten_cons, ← ih (by simp)]
          simp

/-- Every item has a bullet in front of it, and a list without items has one as well. -/
theorem frames_bulleted (context : Context) {items : List Item} {texts : List (List Char)}
    (h : List.Forall₂ (fun i t => Frames (skeleton .bulletItem (Item.blocks i)) t) items texts) :
    Frames (blockMacros context (.bulletList items)) (bulleted texts) := by
  have bulletCalls : Frames [.indented, .bold] bullet :=
    ⟨.inr (by decide), .cons rfl (.cons rfl .nil)⟩
  rw [blockMacros]
  cases h with
  | nil => exact bulletCalls
  | @cons i t items texts hi hr =>
      rw [if_neg (by simp), bulletMacros_eq, bulleted_of_ne_nil (by simp)]
      have each : List.Forall₂ (fun i t => Frames (skeleton .bulletItem (Item.blocks i)) t)
        (i :: items) (t :: texts) := .cons hi hr
      refine .flatten (List.forall₂_map_right_iff.mpr (each.imp fun _ _ hx => ?_))
      exact bulletCalls.append hx

/-- The number in front of an item begins its line, so the point behind it does not. -/
theorem hasControl_number (n : ℕ) :
    Roff.hasControl true ((toString n).toList ++ ['.']) = false := by
  have shown : (toString n).toList.any Roff.isControl = false := by
    rw [List.any_eq_false]
    intro c hc
    rw [Roff.isControl_iff]
    rintro (rfl | rfl) <;> exact absurd (isDigit_of_mem_toString hc) (by decide)
  have hne : (toString n).toList ≠ [] := by
    rw [Nat.toString_eq_repr, Nat.toList_repr]
    exact Nat.toDigits_ne_nil
  have hn : '\n' ∉ (toString n).toList := fun h =>
    absurd (isDigit_of_mem_toString h) (by decide)
  rw [Roff.hasControl_append, Roff.hasControl_of_any shown, Roff.lineStart_of_not_mem hne hn]
  rfl

section items

variable {α : Type} {f : α → List Macro} {xs : List α} {texts : List (List Char)}

theorem frames_numberedItem (n : ℕ) (h : List.Forall₂ (fun x t => Frames (f x) t) xs texts) :
    Frames (.tagged :: xs.flatMap f) (numberedItem n texts) := by
  have opening : Frames [.tagged] ".TP\n".toList := ⟨.inr (by decide), .cons rfl .nil⟩
  have number : Frames [] (((toString n).toList ++ ['.']) ++ ['\n']) :=
    (Calls.nil_iff.mpr (hasControl_number n)).newline
  have e : numberedItem n texts = ".TP\n".toList ++ ((((toString n).toList ++ ['.']) ++ ['\n']) ++
      Text.join ['\n'] texts) := by
    unfold numberedItem
    simp only [List.append_assoc]
    rfl
  rw [e]
  exact opening.append (number.append (.join h))

theorem termItem_nil (term : List Char) :
    termItem term [] = ".TP\n.fi\n.B\n".toList ++ term := by
  unfold termItem
  exact List.append_nil _

theorem termItem_of_ne_nil (term : List Char) (h : texts ≠ []) : termItem term texts =
    ".TP\n.fi\n.B\n".toList ++ ((term ++ ['\n']) ++ Text.join ['\n'] texts) := by
  have he : texts.isEmpty = false := by simpa using h
  unfold termItem
  rw [he, if_neg (by decide), List.append_assoc, List.append_assoc]
  rfl

theorem calls_termItem {term : List Char} (hterm : Roff.hasControl true term = false)
    (h : List.Forall₂ (fun x t => Frames (f x) t) xs texts) :
    Calls (.tagged :: .fill :: .bold :: xs.flatMap f) (termItem term texts) := by
  have opening : Frames [.tagged, .fill, .bold] ".TP\n.fi\n.B\n".toList :=
    ⟨.inr (by decide), .cons rfl (.cons rfl (.cons rfl .nil))⟩
  have shown : Calls [] term := Calls.nil_iff.mpr hterm
  by_cases he : texts = []
  · subst he
    cases h
    rw [termItem_nil]
    exact opening.calls.append opening.ended shown
  · rw [termItem_of_ne_nil term he]
    exact (opening.append (shown.newline.append (.join h))).calls

/-- The line end that a description loses is the one behind its last block. -/
theorem calls_descriptionItem {term : List Char} (hterm : Roff.hasControl true term = false)
    (h : List.Forall₂ (fun x t => Frames (f x) t) xs texts) :
    Calls (.tagged :: .fill :: .bold :: xs.flatMap f) (descriptionItem term texts) := by
  unfold descriptionItem
  split
  · exact calls_termItem hterm h
  · next he =>
    refine (calls_termItem hterm h).chomp ?_
    have hne : texts ≠ [] := by simpa using he
    have ended : EndsLine (termItem term texts) := by
      rw [termItem_of_ne_nil term hne]
      exact .append (.inr (by decide)) (.append (Roff.endsLine_newline term) (Frames.join h).ended)
    refine ended.resolve_left ?_
    rw [termItem_of_ne_nil term hne]
    exact List.append_ne_nil_of_left_ne_nil (by decide) _

end items

/-! ### The macros of each kind of node -/

/-- What is known of the text of a node: running text has no control line, everything else has those
that it calls for. -/
def Node.Framed : Node → List Char → Prop
  | .inline _, _ => True
  | .running _, s => Roff.hasControl true s = false
  | .block context b, s => Frames (blockMacros context b) s
  | .bulletItem i, s => Frames (skeleton .bulletItem i.blocks) s
  | .numberedEntry i, s => Frames (.tagged :: skeleton .numberedItem i.blocks) s
  | .description d, s => Calls (.tagged :: .fill :: .bold :: skeleton .description d.body) s
  | .method m, s => Calls (.tagged :: .fill :: .bold :: skeleton .method m.body) s
  | .body content, s => Frames (skeleton .document content) s

theorem framed_blocks {context : Context} {content : List Block} {texts : List (List Char)}
    (h : List.Forall₂ Node.Framed (content.map (.block context)) texts) :
    List.Forall₂ (fun b t => Frames (blockMacros context b) t) content texts := by
  have hb := List.forall₂_map_left_iff.mp h
  exact hb

/-- A node calls its macros if its parts do. -/
theorem Composed.framed {σ τ τ' : State} {n : Node} {texts : List (List Char)} {s : List Char}
    (h : Composed σ n τ texts s τ') (parts : List.Forall₂ Node.Framed n.parts texts)
    (running : ∀ content, n = .running content → Roff.hasControl true s = false)
    (ended : ∀ context content t, n = .block context (.paragraph content) → texts = [t] →
      EndsLine t) : n.Framed s := by
  cases h with
  | running => exact running _ rfl
  | headline =>
      obtain ⟨ht, -⟩ := List.forall₂_cons.mp parts
      exact ⟨Roff.endsLine_newline _, calls_headline _ ht⟩
  | paragraph =>
      obtain ⟨ht, -⟩ := List.forall₂_cons.mp parts
      exact frames_paragraph _ _ (ended _ _ _ rfl rfl) ht
  | verbatim => exact frames_verbatim _
  | bulletList =>
      have each := List.forall₂_map_left_iff.mp parts
      refine frames_bulleted _ (List.forall₂_map_right_iff.mpr (each.imp fun _ _ hi => ?_))
      exact Frames.closeFirstGap hi
  | numberedList =>
      have each := List.forall₂_map_left_iff.mp parts
      rw [Node.Framed, blockMacros, numberMacros_eq]
      exact .flatten each
  | descriptionList =>
      have each := List.forall₂_map_left_iff.mp parts
      rw [Node.Framed, blockMacros, descriptionMacros_eq]
      exact .flatMap_endLine each
  | methodList =>
      have each := List.forall₂_map_left_iff.mp parts
      rw [Node.Framed, blockMacros, methodMacros_eq]
      exact .flatMap_endLine each
  | bulletItem =>
      rw [Node.Framed, skeleton_eq]
      exact .flatMap_endLine ((framed_blocks parts).imp fun _ _ hb => hb.calls)
  | numberedEntry =>
      rw [Node.Framed, skeleton_eq]
      exact frames_numberedItem _ (framed_blocks parts)
  | description =>
      obtain ⟨ht, parts⟩ := List.forall₂_cons.mp parts
      rw [Node.Framed, skeleton_eq]
      exact calls_descriptionItem ht (framed_blocks parts)
  | method signature =>
      rw [Node.Framed, skeleton_eq]
      exact calls_termItem (Roff.hasControl_escape _) (framed_blocks parts)
  | body =>
      rw [Node.Framed, skeleton_eq]
      exact .flatten (framed_blocks parts)
  | _ => trivial

/-! ### The macros of a body -/

/-- Setting `n` from `σ` comes to a paragraph with the running text `s`. -/
def SetsParagraph (σ : State) (n : Node) (s : List Char) : Prop :=
  ∃ context content τ τ', Reaches σ n τ (.block context (.paragraph content)) ∧
    (inlines content).Yields τ s τ'

/-- **The macros of a page.**  If every paragraph is empty or ends with a newline, and no reference
within the document begins with `function#`, then no line of the body begins with an apostrophe, and
those that begin with a point are the macros that its blocks call for, in order. -/
theorem forall₂_reads_skeleton {σ τ : State} {content : List Block} {s : List Char}
    (h : (body content).Yields σ s τ)
    (ended : ∀ text, SetsParagraph σ (.body content) text → text = [] ∨ text.getLast? = some '\n')
    (unmarked : ∀ text, SetsReference σ (.body content) text → ¬ functionMark <+: text) :
    (∀ l ∈ Roff.lines s, l.head? ≠ some '\'') ∧
      List.Forall₂ Macro.Reads (skeleton .document content)
        ((Roff.lines s).filter fun l => l.head? = some '.') := by
  have framed : Node.Framed (.body content) s := by
    refine Node.yields_induction (n := .body content) h ?_
    intro m σ₁ t σ₂ texts σ₃ reach hm ht hc parts
    refine hc.framed parts ?_ ?_
    · rintro running rfl
      refine hasControl_of_guarded hm fun c rest hr => ?_
      obtain ⟨name, inner, σ', τ', hr, hb⟩ := hr
      have marked := unmarked _ ⟨name, inner, σ', τ', reach.trans hr, hb⟩
      exact absurd (List.prefix_append _ _) marked
    · rintro context inner t rfl rfl
      exact ended t ⟨context, inner, σ₁, σ₃, reach, yields_setAll_running.mp ht⟩
  exact framed.calls.lines_point

/-- A bullet, and below it the text of a reference: its point is no macro. -/
theorem forall₂_reads_bulletList :
    (body [.bulletList [⟨[.paragraph [.reference (.label "x" none) [.text ".a\n"]]]⟩]]).Yields
      .initial ".IP\n.B\n\\(bu\n\\&.a\n".toList .initial ∧
    List.Forall₂ Macro.Reads [.indented, .bold]
      ((Roff.lines ".IP\n.B\n\\(bu\n\\&.a\n".toList).filter fun l => l.head? = some '.') := by
  have run : (body [.bulletList [⟨[.paragraph
      [.reference (.label "x" none) [.text ".a\n"]]]⟩]]).Yields
      .initial ".IP\n.B\n\\(bu\n\\&.a\n".toList .initial := rfl
  have shown : (inlines [.reference (.label "x" none) [.text ".a\n"]]).Yields
      .initial "\\&.a\n".toList .initial := rfl
  have inner : (inlines [.text ".a\n"]).Yields .initial "\\&.a\n".toList .initial := rfl
  -- every node that is reached has at most one part, down to the text
  have reached : ∀ {τ m}, Reaches .initial (.body [.bulletList [⟨[.paragraph
      [.reference (.label "x" none) [.text ".a\n"]]]⟩]]) τ m → τ = .initial ∧
      ((∀ context content, m = .block context (.paragraph content) →
        content = [.reference (.label "x" none) [.text ".a\n"]]) ∧
      (∀ name content, m = .inline (.reference (.label name none) content) →
        content = [.text ".a\n"])) := by
    intro τ m h
    iterate 7
      rcases h.of_parts_singleton rfl with ⟨rfl, rfl⟩ | h
      · simp [Node.enter]
    cases h with
    | refl => simp [Node.enter]
    | part split => simp [Node.parts] at split
  refine ⟨run, (forall₂_reads_skeleton run ?_ ?_).2⟩
  · rintro text ⟨context, content, τ, τ', h, ht⟩
    obtain ⟨rfl, hp, -⟩ := reached h
    obtain rfl := hp context content rfl
    obtain ⟨rfl, -⟩ := shown.unique ht
    exact .inr (by decide)
  · rintro text ⟨name, content, τ, τ', h, ht⟩
    obtain ⟨rfl, -, hr⟩ := reached h
    obtain rfl := hr name content rfl
    obtain ⟨rfl, -⟩ := inner.unique ht
    decide

end ManualPages.Page
