import ManualPages.Page.Body
import ManualPages.Proofs.Roff.Lines
import ManualPages.Proofs.Roff.Unescape
import Mathlib.Data.List.TakeWhile

/-! # Verbatim blocks

* `Roff.Trimmed`: a text and what is left of it without its line terminators.
* `lines_verbatim`: the lines of a verbatim block are those of its source, between `.nf` and `.fi`.
* `verbatim_read_back`: none of them is a control line, so the block ends where its source does, and
  read back they are the lines of the source. -/

namespace ManualPages

namespace Roff

/-- `content` is `s` without the newlines and carriage returns at its end. -/
structure Trimmed (s content : List Char) : Prop where
  cut : ∃ ends, s = content ++ ends ∧ ∀ c ∈ ends, c = '\n' ∨ c = '\r'
  last : ∀ c ∈ content.getLast?, c ≠ '\n' ∧ c ≠ '\r'

theorem trimmed_trimLineEnd (s : List Char) : Trimmed s (trimLineEnd s) := by
  constructor
  · refine ⟨(s.reverse.takeWhile fun c => c == '\n' || c == '\r').reverse, ?_, fun c hc => ?_⟩
    · rw [trimLineEnd, ← List.reverse_append, List.takeWhile_append_dropWhile, List.reverse_reverse]
    · have terminator := List.mem_takeWhile_imp (List.mem_reverse.mp hc)
      simpa using terminator
  · intro c hc
    rw [trimLineEnd, List.getLast?_reverse] at hc
    have kept := Text.head?_dropWhile _ s.reverse c hc
    simpa using kept

theorem Trimmed.eq {s content : List Char} (h : Trimmed s content) : content = trimLineEnd s := by
  obtain ⟨⟨ends, rfl, terminators⟩, last⟩ := h
  have dropped : ∀ c ∈ ends.reverse, (c == '\n' || c == '\r') = true := by
    intro c hc
    simpa using terminators c (List.mem_reverse.mp hc)
  have kept : content.reverse.dropWhile (fun c => c == '\n' || c == '\r') = content.reverse := by
    apply Text.dropWhile_eq_self
    intro c hc
    simpa using last c (by simpa using hc)
  rw [trimLineEnd, List.reverse_append, List.dropWhile_append_of_pos dropped, kept,
    List.reverse_reverse]

theorem newline_not_mem_guard (b : Bool) (c : Char) : '\n' ∉ guard b c := by
  unfold guard
  split
  · decide
  · split
    · decide
    · exact List.not_mem_nil

theorem newline_not_mem_guardAll {b : Bool} {s : List Char} (h : '\n' ∉ s) :
    '\n' ∉ guardAll b s := by
  induction s generalizing b with
  | nil => exact h
  | cons c s ih =>
      simp only [List.mem_cons, not_or] at h
      simp [guardAll, newline_not_mem_guard, h.1, ih h.2]

end Roff

namespace Page

/-- What is set for a line of a verbatim block, up to the end of the line. -/
def verbatimText (line : String) : List Char :=
  Roff.zeroWidth ++ "    ".toList ++ Roff.escape (Roff.trimLineEnd line.toList)

theorem lines_flatMap_verbatimLine (source : List String) (t : List Char) :
    Roff.lines (source.flatMap verbatimLine ++ t) =
      (source.flatMap fun line => Roff.lines (verbatimText line)) ++ Roff.lines t := by
  induction source with
  | nil => rfl
  | cons line rest ih =>
      have first : verbatimLine line = verbatimText line ++ ['\n'] := rfl
      rw [List.flatMap_cons, List.flatMap_cons, first, List.append_assoc, List.append_assoc,
        List.singleton_append, Roff.lines_newline, ih, List.append_assoc]

theorem lines_verbatim (source : List String) : Roff.lines (verbatim source) =
    ".nf".toList :: (source.flatMap fun line => Roff.lines (verbatimText line)) ++
      [".fi".toList, []] := by
  have opening : verbatim source =
      ".nf".toList ++ '\n' :: (source.flatMap verbatimLine ++ ".fi\n".toList) := by
    simp [verbatim]
  rw [opening, Roff.lines_newline, lines_flatMap_verbatimLine]
  rfl

theorem hasControl_verbatimText (line : String) :
    Roff.hasControl true (verbatimText line) = false := by
  rw [verbatimText, Roff.hasControl_append, Roff.hasControl_of_any (by decide)]
  exact Roff.hasControl_true (Roff.hasControl_escape _)

theorem lines_verbatimText {line : String} (h : '\n' ∉ Roff.trimLineEnd line.toList) :
    Roff.lines (verbatimText line) = [verbatimText line] := by
  have one : '\n' ∉ verbatimText line := by
    rw [verbatimText, Roff.escape_eq_guardAll]
    simp [Roff.zeroWidth, Roff.newline_not_mem_guardAll h]
  have whole := Roff.lines_append_of_not_mem one []
  rw [List.append_nil] at whole
  rw [whole]
  exact congrArg ([·]) (List.append_nil _)

theorem unescape_verbatimText (line : String) :
    Roff.unescape (verbatimText line) = "    ".toList ++ Roff.trimLineEnd line.toList := by
  rw [verbatimText, List.append_assoc, Roff.unescape_zeroWidth_append]
  change Roff.unescape (' ' :: ' ' :: ' ' :: ' ' :: Roff.escape _) = _
  iterate 4 rw [Roff.unescape_cons (by decide)]
  rw [Roff.unescape_escape]
  rfl

/-- **Verbatim blocks.**  A verbatim block is read as `.nf`, lines that are no control lines, and
`.fi`, whatever its source holds.  If no line of the source is broken before its end, there is one
line for each line of the source: read back it is that line, indented and without its terminators. -/
theorem verbatim_read_back (source : List String) : ∃ middle : List (List Char),
    Roff.lines (verbatim source) = ".nf".toList :: middle ++ [".fi".toList, []] ∧
    (∀ l ∈ middle, Roff.isControlLine l = false) ∧
    ((∀ line ∈ source, ∀ content, Roff.Trimmed line.toList content → '\n' ∉ content) →
      List.Forall₂ (fun line l => ∃ content, Roff.Trimmed line.toList content ∧
        Roff.unescape l = "    ".toList ++ content) source middle) := by
  refine ⟨_, lines_verbatim source, ?_, ?_⟩
  · intro l hl
    obtain ⟨line, -, hl⟩ := List.mem_flatMap.mp hl
    have none := hasControl_verbatimText line
    rw [← Bool.not_eq_true, ← Roff.exists_controlLine_iff] at none
    rw [← Bool.not_eq_true]
    exact fun control => none ⟨l, hl, control⟩
  · intro unbroken
    have single : ∀ line ∈ source, Roff.lines (verbatimText line) = [verbatimText line] :=
      fun line hl => lines_verbatimText (unbroken line hl _ (Roff.trimmed_trimLineEnd _))
    have each : (source.flatMap fun line => Roff.lines (verbatimText line)) =
        source.map verbatimText := by
      rw [List.flatMap_congr single, List.map_eq_flatMap]
    rw [each, List.forall₂_map_right_iff, List.forall₂_same]
    exact fun line _ => ⟨_, Roff.trimmed_trimLineEnd _, unescape_verbatimText line⟩

/-- Lines that look like an escape and like a macro, one with two terminators and one with none. -/
theorem verbatim_read_back_macros : ∃ middle : List (List Char),
    Roff.lines (verbatim [".fi\r\n", "\\&-"]) = ".nf".toList :: middle ++ [".fi".toList, []] ∧
    (∀ l ∈ middle, Roff.isControlLine l = false) ∧
    List.Forall₂ (fun line l => ∃ content, Roff.Trimmed (String.toList line) content ∧
      Roff.unescape l = "    ".toList ++ content) [".fi\r\n", "\\&-"] middle := by
  obtain ⟨middle, whole, shown, back⟩ := verbatim_read_back [".fi\r\n", "\\&-"]
  refine ⟨middle, whole, shown, back ?_⟩
  intro line hl content trimmed
  rw [trimmed.eq]
  simp only [List.mem_cons, List.not_mem_nil, or_false] at hl
  rcases hl with rfl | rfl <;> decide

end Page

end ManualPages
