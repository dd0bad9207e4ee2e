import ManualPages.Page.Text
import ManualPages.Proofs.Page.Setting
import ManualPages.Proofs.Roff.Lines

/-! # Texts next to each other

Whether a point or an apostrophe is guarded depends on what stands in front of it, so a text that is
cut in two is not always escaped like the whole.

* `escape_append`: where a line begins at the cut, or the second text does not begin with a control
  character, nothing changes; elsewhere one mark that prints nothing is added at the cut
  (`escape_append_of_control`).
* Cutting at newlines changes nothing (`escape_join`), and cutting into nodes adds at most one such
  mark in front of each node (`exists_pieces`).
* `adjacent_texts` has all of it. -/

namespace ManualPages

namespace Roff

/-! ### Two texts -/

/-- The start of a line matters only to a control character. -/
theorem guardAll_true (s : List Char) :
    guardAll true s = (if isControlLine s then zeroWidth else []) ++ guardAll false s := by
  cases s with
  | nil => rfl
  | cons c s =>
      have front : guard true c =
          (if isControlLine (c :: s) then zeroWidth else []) ++ guard false c := by
        rcases Bool.eq_false_or_eq_true (isControl c) with control | text
        · rcases isControl_iff.mp control with rfl | rfl <;> rfl
        · simp [guard, isControlLine, text]
      rw [guardAll, guardAll, front, List.append_assoc]

variable {a b : List Char}

theorem escape_append (h : EndsLine a ∨ isControlLine b = false) :
    escape (a ++ b) = escape a ++ escape b := by
  rw [escape_eq_guardAll, escape_eq_guardAll, escape_eq_guardAll, guardAll_append_lineStart]
  congr 1
  rcases h with line | text
  · rw [endsLine_iff.mp line]
  · cases lineStart true a with
    | true => rfl
    | false => rw [guardAll_true, text]; rfl

theorem escape_append_of_control (line : ¬ EndsLine a) (control : isControlLine b = true) :
    ∃ rest, escape b = zeroWidth ++ rest ∧ escape (a ++ b) = escape a ++ rest := by
  have within : lineStart true a = false := Bool.eq_false_iff.mpr (mt endsLine_iff.mpr line)
  refine ⟨guardAll false b, ?_, ?_⟩
  · rw [escape_eq_guardAll, guardAll_true, control]
    rfl
  · rw [escape_eq_guardAll, escape_eq_guardAll, guardAll_append_lineStart, within]

/-! ### Line by line -/

theorem escape_join (texts : List (List Char)) :
    escape (Text.join ['\n'] texts) = Text.join ['\n'] (texts.map escape) := by
  induction texts with
  | nil => rfl
  | cons s rest ih =>
      cases rest with
      | nil => rfl
      | cons t rest =>
          have newline : escape (s ++ ['\n']) = escape s ++ ['\n'] := escape_append (.inr rfl)
          rw [Text.join_cons_cons, escape_append (.inl (endsLine_newline s)), newline, ih]
          rfl

theorem join_lines (s : List Char) : Text.join ['\n'] (lines s) = s := by
  induction s with
  | nil => rfl
  | cons c s ih =>
      obtain ⟨l, ls, cut⟩ := exists_lines_eq_cons s
      rw [lines_cons, cut]
      rw [cut] at ih
      split
      · next newline => rw [Text.join_cons_cons, ih, newline]; rfl
      · rw [← ih]
        cases ls with
        | nil => rfl
        | cons m ms => rfl

/-! ### Many texts -/

/-- Texts that are escaped one by one: each is its piece of the whole, or has one mark more in front
of it. -/
theorem exists_pieces (b : Bool) (texts : List (List Char)) : ∃ pieces,
    pieces.flatten = guardAll b texts.flatten ∧
      List.Forall₂ (fun s piece => escape s = piece ∨ escape s = zeroWidth ++ piece) texts
        pieces := by
  induction texts generalizing b with
  | nil => exact ⟨[], rfl, .nil⟩
  | cons s rest ih =>
      obtain ⟨pieces, whole, each⟩ := ih (lineStart b s)
      refine ⟨guardAll b s :: pieces, ?_, .cons ?_ each⟩
      · rw [List.flatten_cons, List.flatten_cons, guardAll_append_lineStart, whole]
      · rw [escape_eq_guardAll]
        cases b with
        | true => exact .inl rfl
        | false =>
            rw [guardAll_true]
            split
            · exact .inr rfl
            · exact .inl rfl

end Roff

namespace Page

open Roff Setting

/-- The source of a text or verb node. -/
def literalSource (node : Inline) : List Char := escape (node.literal?.getD "").toList

theorem runFrom_inlines_literal {nodes : List Inline} (h : ∀ node ∈ nodes, node.literal?.isSome)
    (σ : State) : (inlines nodes).runFrom σ = (.ok (nodes.flatMap literalSource), σ) := by
  induction nodes with
  | nil => rfl
  | cons node rest ih =>
      have others := ih fun n mem => h n (List.mem_cons_of_mem node mem)
      have literal := h node List.mem_cons_self
      have first : (inline node).runFrom σ = (.ok (literalSource node), σ) := by
        cases node with
        | text s | verb s => rfl
        | span | reference => cases literal
      rw [inlines, runFrom_bind, first]
      dsimp only
      rw [runFrom_bind, others]
      rfl

/-- Two texts are escaped like the one that they make, but for one mark where a control character
comes to stand at the front of the second; lines are escaped one by one; and nodes that a text is
cut into are its pieces, some with a mark in front. -/
theorem adjacent_texts (a b : List Char) {nodes : List Inline}
    (literal : ∀ node ∈ nodes, node.literal?.isSome) (σ : State) :
    (EndsLine a ∨ isControlLine b = false → escape (a ++ b) = escape a ++ escape b) ∧
    (¬ EndsLine a → isControlLine b = true → ∃ rest, escape (a ++ b) = escape a ++ rest ∧
      escape a ++ escape b = escape a ++ zeroWidth ++ rest) ∧
    escape a = Text.join ['\n'] ((lines a).map escape) ∧
    ∃ pieces, (inlines nodes).runFrom σ = (.ok (nodes.flatMap literalSource), σ) ∧
      pieces.flatten = escape (Inline.directText nodes) ∧
      List.Forall₂ (fun node piece => literalSource node = piece ∨
        literalSource node = zeroWidth ++ piece) nodes pieces := by
  refine ⟨escape_append, fun line control => ?_, ?_, ?_⟩
  · obtain ⟨rest, second, whole⟩ := escape_append_of_control line control
    exact ⟨rest, whole, by rw [second, List.append_assoc]⟩
  · rw [← escape_join, join_lines]
  · obtain ⟨pieces, whole, each⟩ :=
      exists_pieces true (nodes.map fun node => (node.literal?.getD "").toList)
    rw [List.forall₂_map_left_iff] at each
    refine ⟨pieces, runFrom_inlines_literal literal σ, ?_, each⟩
    rw [whole, escape_eq_guardAll, Inline.directText, List.flatMap_def]

/-- A mark is added in front of the point, and none at the beginning of the second line. -/
theorem adjacent_texts_cut : let nodes : List Inline := [.text "x", .verb ".y\n", .text "'z"]
    (∀ node ∈ nodes, node.literal?.isSome) ∧ ¬ EndsLine "x".toList ∧
      isControlLine ".y".toList = true ∧
      (∃ rest, escape "x.y".toList = escape "x".toList ++ rest ∧
        escape "x".toList ++ escape ".y".toList = escape "x".toList ++ zeroWidth ++ rest) ∧
      escape "x.y\n'z".toList = "x.y\n\\&'z".toList ∧
      (inlines nodes).runFrom .initial = (.ok "x\\&.y\n\\&'z".toList, .initial) := by
  have literal : ∀ node ∈ [Inline.text "x", .verb ".y\n", .text "'z"], node.literal?.isSome := by
    simp [Inline.literal?]
  have within : ¬ EndsLine "x".toList := by simp [EndsLine]
  obtain ⟨-, cut, -, pieces, run, -⟩ :=
    adjacent_texts "x".toList ".y".toList literal State.initial
  exact ⟨literal, within, rfl, cut within rfl, by decide, run⟩

end Page

end ManualPages
