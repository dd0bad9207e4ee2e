import ManualPages.Text.Blank
import Mathlib.Data.List.TakeWhile

/-! # Trimming around a character

A character that is no blank stays, so what is in front of it is trimmed at its start only, and what
is behind it at its end only (`trim_append_cons`).  A text that has been trimmed at one end is
trimmed to the same text: `trim_trimStart`, `trim_trimEnd`. -/

namespace ManualPages.Text

variable {c : Char}

theorem trimStart_append_cons (h : isBlank c = false) (a b : List Char) :
    trimStart (a ++ c :: b) = trimStart a ++ c :: b := by
  induction a with
  | nil => simp [trimStart, h]
  | cons x a ih =>
      unfold trimStart at ih ⊢
      rw [List.cons_append, List.dropWhile_cons, List.dropWhile_cons]
      split
      · exact ih
      · rfl

theorem trimEnd_append_cons (h : isBlank c = false) (a b : List Char) :
    trimEnd (a ++ c :: b) = a ++ c :: trimEnd b := by
  have reversed := trimStart_append_cons h b.reverse a.reverse
  unfold trimStart at reversed
  simp [trimEnd, reversed]

theorem trim_append_cons (h : isBlank c = false) (a b : List Char) :
    trim (a ++ c :: b) = trimStart a ++ c :: trimEnd b := by
  rw [trim, trimStart_append_cons h, trimEnd_append_cons h]

theorem mem_trim_iff (h : isBlank c = false) {s : List Char} : c ∈ trim s ↔ c ∈ s := by
  constructor
  · intro hc
    have atEnd := (List.dropWhile_sublist isBlank (l := (trimStart s).reverse)).subset
    have atStart := (List.dropWhile_sublist isBlank (l := s)).subset
    exact atStart (List.mem_reverse.mp (atEnd (List.mem_reverse.mp hc)))
  · intro hc
    obtain ⟨a, b, rfl⟩ := List.append_of_mem hc
    rw [trim_append_cons h]
    simp

theorem trimStart_trimEnd (s : List Char) : trimStart (trimEnd s) = trimEnd (trimStart s) := by
  by_cases h : ∃ c ∈ s, isBlank c = false
  · obtain ⟨c, hc, visible⟩ := h
    obtain ⟨a, b, rfl⟩ := List.append_of_mem hc
    rw [trimEnd_append_cons visible, trimStart_append_cons visible, trimStart_append_cons visible,
      trimEnd_append_cons visible]
  · have blank : ∀ c ∈ s, isBlank c = true := by simpa using h
    have front : trimStart s = [] := List.dropWhile_eq_nil_iff.mpr blank
    have back : trimEnd s = [] := by
      rw [trimEnd, List.dropWhile_eq_nil_iff.mpr (by simpa using blank), List.reverse_nil]
    rw [front, back]
    rfl

theorem trim_trimStart (s : List Char) : trim (trimStart s) = trim s := by
  have again : trimStart (trimStart s) = trimStart s := dropWhile_eq_self (head?_dropWhile _ s)
  rw [trim, trim, again]

theorem trim_trimEnd (s : List Char) : trim (trimEnd s) = trim s := by
  rw [trim, trim, trimStart_trimEnd, trimEnd_eq_self (getLast?_trimEnd _)]

end ManualPages.Text
