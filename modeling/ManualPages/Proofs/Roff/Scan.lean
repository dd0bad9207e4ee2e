import ManualPages.Proofs.Roff.Lines

/-! # The scan in front of the rewriting

`escape` first scans a text for a character that needs a guard, and ends the scan at the first one;
only a text with such a character is rewritten.  Scan and rewriting read the text each for itself
and carry along each for itself whether a line begins.

* `needsEscapeFrom_append`: behind a text the scan goes on from the same `lineStart` as the
  rewriting (`guardAll_append_lineStart`).
* `needsEscapeFrom_eq_true_iff`: up to the place where the scan ends the rewriting writes what it
  reads, and at that place it writes a guard.
* `needsEscapeFrom_iff_mem`: what the scan looks for, said of the whole text.
* `needsEscape_agrees` puts scan and rewriting together. -/

namespace ManualPages.Roff

variable {b : Bool} {s : List Char}

theorem needsEscapeFrom_append (b : Bool) (s t : List Char) :
    needsEscapeFrom b (s ++ t) = (needsEscapeFrom b s || needsEscapeFrom (lineStart b s) t) := by
  induction s generalizing b with
  | nil => rfl
  | cons c s ih =>
      rw [List.cons_append, needsEscapeFrom, needsEscapeFrom, ih, lineStart, Bool.or_assoc]

/-- The scan finds something exactly if there is a first character that gets a guard. -/
theorem needsEscapeFrom_eq_true_iff : needsEscapeFrom b s = true ↔
    ∃ u c v, s = u ++ c :: v ∧ guardAll b u = u ∧ guard (lineStart b u) c ≠ [] := by
  constructor
  · intro found
    induction s generalizing b with
    | nil => cases found
    | cons x s ih =>
        by_cases h : guard b x = []
        · -- The scan passes over `x` as well, so both are at the same place with the same flag.
          rw [needsEscapeFrom, (guard_eq_nil_iff b x).mp h, Bool.false_or] at found
          obtain ⟨u, c, v, rfl, same, guarded⟩ := ih found
          refine ⟨x :: u, c, v, rfl, ?_, guarded⟩
          rw [guardAll, h, same, List.nil_append]
        · exact ⟨[], x, s, rfl, rfl, h⟩
  · rintro ⟨u, c, v, rfl, -, guarded⟩
    have ends : needsGuard (lineStart b u) c = true := by
      simpa using mt (guard_eq_nil_iff (lineStart b u) c).mpr guarded
    rw [needsEscapeFrom_append, needsEscapeFrom, ends, Bool.true_or, Bool.or_true]

/-- A backslash and a hyphen need a guard anywhere, a control character at the start of a line. -/
theorem needsEscapeFrom_iff_mem : needsEscapeFrom b s = true ↔
    '\\' ∈ s ∨ '-' ∈ s ∨ hasControl b s = true := by
  induction s generalizing b with
  | nil => simp [needsEscapeFrom, hasControl]
  | cons c s ih =>
      have here : needsGuard b c = true ↔
          c = '\\' ∨ c = '-' ∨ (b && isControl c) = true := by
        simp [needsGuard, isControl, or_assoc]
      rw [needsEscapeFrom, Bool.or_eq_true, here, ih, hasControl, Bool.or_eq_true, List.mem_cons,
        List.mem_cons, eq_comm (a := c), eq_comm (a := c), or_or_or_comm,
        or_or_or_comm (a := '-' = c)]

/-- **Scan and rewriting agree.**  The scan finds nothing exactly if the rewriting gives the text
back, so `escape` gives what the rewriting gives, for a text that it returns as it is and for any
other.  What the scan finds is the first character that the rewriting guards, and there is one
exactly if the text has a backslash, a hyphen or a control line. -/
theorem needsEscape_agrees (s : List Char) :
    (needsEscape s = false ↔ guardAll true s = s) ∧
    escape s = guardAll true s ∧
    (needsEscape s = true ↔ ∃ u c v, s = u ++ c :: v ∧ guardAll true u = u ∧
      guard (lineStart true u) c ≠ []) ∧
    (needsEscape s = true ↔
      '\\' ∈ s ∨ '-' ∈ s ∨ ∃ l ∈ lines s, isControlLine l = true) := by
  refine ⟨(guardAll_eq_self_iff true s).symm, escape_eq_guardAll s,
    needsEscapeFrom_eq_true_iff, ?_⟩
  rw [exists_controlLine_iff]
  exact needsEscapeFrom_iff_mem

/-- A point within a line is no reason to rewrite a text, and one at the start of any line is. -/
example : needsEscape "a.b c'd".toList = false ∧ needsEscape "a.b\n.c".toList = true := by decide

end ManualPages.Roff
