import ManualPages.Report
import Mathlib.Data.List.Induction

/-! # Marks in a text

A position counts lines, and bytes in a line; `offsetOf` counts bytes.

* What has been read are lines with their newlines and the beginning of another line, of which the
  position has the numbers (`exists_lines`).  The lines are the first ones of the whole text
  (`lineLengths_lines_append`), so the offset is that of the last byte that has been read, or of the
  next one at the beginning of a line (`offsetOf_after`).
* `mark_on_byte` has the mark of a report: for every position it lies within the text. -/

namespace ManualPages

open Json (Position)

theorem Json.Position.after_concat (s : List UInt8) (b : UInt8) :
    Position.after (s ++ [b]) =
      if b = Position.newline then ⟨(Position.after s).line + 1, 0⟩
      else ⟨(Position.after s).line, (Position.after s).column + 1⟩ := by
  split
  · next h => simp [Position.after, h, Nat.add_assoc]
  · next h => simp [Position.after, h]

namespace Report

/-! ### Lines -/

/-- Lines, each with its newline. -/
def ended (lines : List (List UInt8)) : List UInt8 := lines.flatMap (· ++ [Position.newline])

theorem ended_concat (lines : List (List UInt8)) (line : List UInt8) :
    ended (lines ++ [line]) = ended lines ++ line ++ [Position.newline] := by
  simp [ended]

/-- What has been read is lines and the beginning of another one. -/
theorem exists_lines (s : List UInt8) : ∃ lines last,
    (∀ line ∈ lines, Position.newline ∉ line) ∧ Position.newline ∉ last ∧
      s = ended lines ++ last ∧ Position.after s = ⟨1 + lines.length, last.length⟩ := by
  induction s using List.reverseRecOn with
  | nil => exact ⟨[], [], by simp, by simp, rfl, rfl⟩
  | append_singleton s b ih =>
      obtain ⟨lines, last, separate, unfinished, rfl, position⟩ := ih
      rw [Position.after_concat, position]
      by_cases h : b = Position.newline
      · refine ⟨lines ++ [last], [], ?_, by simp, by simp [ended_concat, h], by simp [h]; rfl⟩
        intro line mem
        rcases List.mem_append.mp mem with old | new
        · exact separate line old
        · rwa [List.mem_singleton.mp new]
      · refine ⟨lines, last ++ [b], separate, ?_, by simp, by simp [h]⟩
        simp [unfinished, Ne.symm h]

theorem lineLengths_line_append {line : List UInt8} (h : Position.newline ∉ line)
    (t : List UInt8) :
    lineLengths (line ++ Position.newline :: t) = (line.length + 1) :: lineLengths t := by
  induction line with
  | nil => simp [lineLengths]
  | cons b line ih =>
      rw [List.mem_cons, not_or] at h
      rw [List.cons_append, lineLengths, if_neg (Ne.symm h.1), ih h.2]
      rfl

theorem lineLengths_lines_append {lines : List (List UInt8)}
    (h : ∀ line ∈ lines, Position.newline ∉ line) (t : List UInt8) :
    lineLengths (ended lines ++ t) = lines.map (·.length + 1) ++ lineLengths t := by
  induction lines with
  | nil => rfl
  | cons line lines ih =>
      have others := ih fun l mem => h l (List.mem_cons_of_mem line mem)
      have first := lineLengths_line_append (h line List.mem_cons_self) (ended lines ++ t)
      rw [others] at first
      simpa [ended] using first

/-! ### Offsets -/

/-- The position behind some bytes of a text marks the last of them, or the next byte if no byte of
its line has been read. -/
theorem offsetOf_after (bytes : List UInt8) {n : ℕ} (h : n ≤ bytes.length) :
    offsetOf bytes (.after (bytes.take n)) =
      if (Position.after (bytes.take n)).column = 0 then n else n - 1 := by
  obtain ⟨lines, last, separate, -, parts, position⟩ := exists_lines (bytes.take n)
  have length : n = (ended lines).length + last.length := by
    have := congrArg List.length parts
    rwa [List.length_take, Nat.min_eq_left h, List.length_append] at this
  have start : ((lineLengths bytes).take lines.length).sum = (ended lines).length := by
    rw [← List.take_append_drop n bytes, parts, List.append_assoc,
      lineLengths_lines_append separate, List.take_left' (by simp)]
    simp [ended, List.length_flatMap]
  rw [offsetOf, position]
  dsimp only
  rw [Nat.add_sub_cancel_left, start]
  split <;> omega

theorem markAt_within (text : String) (position : Position) :
    (markAt text position).offset + (markAt text position).length ≤ (Utf8.encode text).length ∧
      (markAt text position).length ≤ 1 ∧ ((markAt text position).length = 1 ↔
        (markAt text position).offset < (Utf8.encode text).length) := by
  have le := offsetOf_le (Utf8.encode text) position
  unfold markAt
  dsimp only
  split <;> omega

/-- The mark in a text that is no JSON: on the last byte that has been read, or on the next one at
the beginning of a line; and within the text for any other position, too. -/
theorem mark_on_byte (cause : Json.Cause) (input : Input) :
    (∀ n ≤ (Utf8.encode input.text).length,
      offsetOf (Utf8.encode input.text) (.after ((Utf8.encode input.text).take n)) =
        if 1 ≤ (Position.after ((Utf8.encode input.text).take n)).column then n - 1 else n) ∧
    ∀ position : Position, 0 < position.line → ∃ mark,
      (ofError (.load (.notJson ⟨cause, position⟩)) (some input)).place? = some (input.name, mark) ∧
        mark.offset = offsetOf (Utf8.encode input.text) position ∧
        mark.offset + mark.length ≤ (Utf8.encode input.text).length ∧ mark.length ≤ 1 ∧
        (mark.length = 1 ↔ mark.offset < (Utf8.encode input.text).length) := by
  constructor
  · intro n h
    rw [offsetOf_after _ h]
    split <;> split <;> omega
  · intro position counted
    exact ⟨markAt input.text position, if_pos counted, rfl, markAt_within input.text position⟩

/-- A character of two bytes, a line behind it, and a position beyond the end. -/
theorem mark_on_byte_stale : let bytes := Utf8.encode "é\n[\n"
    bytes.length = 5 ∧ Position.after (bytes.take 4) = ⟨2, 1⟩ ∧ offsetOf bytes ⟨2, 1⟩ = 3 ∧
      Position.after (bytes.take 5) = ⟨3, 0⟩ ∧ offsetOf bytes ⟨3, 0⟩ = 5 ∧
      ∃ mark, (ofError (.load (.notJson ⟨.endInList, ⟨9, 9⟩⟩)) (some ⟨"a", "é\n[\n"⟩)).place? =
        some ("a", mark) ∧ mark.offset + mark.length ≤ 5 := by
  have bytes : Utf8.encode "é\n[\n" = [0xC3, 0xA9, 0x0A, 0x5B, 0x0A] := by decide +kernel
  obtain ⟨points, within⟩ := mark_on_byte .endInList ⟨"a", "é\n[\n"⟩
  obtain ⟨mark, place, -, bound, -⟩ := within ⟨9, 9⟩ (by decide)
  rw [bytes] at points bound ⊢
  exact ⟨rfl, rfl, points 4 (by decide), rfl, points 5 (by decide), mark, place, bound⟩

end Report

end ManualPages
