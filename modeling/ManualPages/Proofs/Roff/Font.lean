import ManualPages.Proofs.Roff.Lines
import ManualPages.Roff.Font

/-! # The point that bold escapes

Bold source has its first point escaped.  `escapePoint` is that step; `escapePoint_cons` says where
it stops, and `escapePoint_eq_append` finds a control character at the start of a line of its result
again in the source. -/

namespace ManualPages.Roff

/-- Escape the first point. -/
def escapePoint (s : List Char) : List Char := Text.replaceFirst ['.'] ['\\', '.'] s

theorem bold_eq (s : List Char) :
    bold s = (zeroWidth ++ font 'B') ++ (escapePoint s ++ font 'P') := by
  simp [bold, escapePoint]

theorem escapePoint_nil : escapePoint [] = [] := rfl

theorem escapePoint_cons (c : Char) (s : List Char) :
    escapePoint (c :: s) = if c = '.' then '\\' :: '.' :: s else c :: escapePoint s := by
  unfold escapePoint Text.replaceFirst
  by_cases h : c = '.'
  · subst h
    simp [Text.splitFirst, Text.stripFront]
  · rw [if_neg h, Text.splitFirst, Text.stripFront, if_neg (Ne.symm h)]
    cases Text.splitFirst ['.'] s <;> rfl

theorem escapePoint_append_of_not_mem {u : List Char} (h : '.' ∉ u) (s : List Char) :
    escapePoint (u ++ s) = u ++ escapePoint s := by
  induction u with
  | nil => rfl
  | cons x u ih =>
      simp only [List.mem_cons, not_or] at h
      rw [List.cons_append, escapePoint_cons, if_neg (Ne.symm h.1), ih h.2]
      rfl

theorem escapePoint_append {u : List Char} {c : Char} (h : c = '.' → '.' ∈ u) (v : List Char) :
    ∃ v', escapePoint (u ++ c :: v) = escapePoint u ++ c :: v' := by
  induction u with
  | nil =>
      have hc : c ≠ '.' := by
        intro e
        simpa using h e
      exact ⟨escapePoint v, by rw [List.nil_append, escapePoint_cons, if_neg hc]; rfl⟩
  | cons x u ih =>
      by_cases hx : x = '.'
      · exact ⟨v, by simp [escapePoint_cons, hx]⟩
      · obtain ⟨v', e⟩ := ih fun hc => by simpa [Ne.symm hx] using h hc
        exact ⟨v', by simp [escapePoint_cons, hx, e]⟩

/-- A control character that begins a line after the first point is escaped began it before. -/
theorem escapePoint_eq_append {b : Bool} {s u v : List Char} {c : Char}
    (h : escapePoint s = u ++ c :: v) (hu : lineStart b u = true) (hc : isControl c = true) :
    ∃ u' v', s = u' ++ c :: v' ∧ u = escapePoint u' ∧ lineStart b u' = true ∧
      (c = '.' → '.' ∈ u') := by
  induction s generalizing b u with
  | nil => simp [escapePoint_nil] at h
  | cons x s ih =>
      rw [escapePoint_cons] at h
      split at h
      · next hx =>
        subst hx
        -- the backslash put in is neither a control character nor the end of a line
        rcases u with _ | ⟨y, _ | ⟨z, u⟩⟩
        · obtain ⟨rfl, -⟩ := List.cons.inj h
          simp [isControl] at hc
        · obtain ⟨rfl, -⟩ := List.cons.inj h
          simp [lineStart] at hu
        · simp only [List.cons_append, List.cons.injEq] at h
          obtain ⟨rfl, rfl, rfl⟩ := h
          exact ⟨'.' :: u, v, rfl, by simp [escapePoint_cons], hu, fun _ => by simp⟩
      · next hx =>
        rcases u with _ | ⟨y, u⟩
        · obtain ⟨rfl, -⟩ := List.cons.inj h
          exact ⟨[], s, rfl, rfl, hu, fun e => absurd e hx⟩
        · simp only [List.cons_append, List.cons.injEq] at h
          obtain ⟨rfl, h⟩ := h
          obtain ⟨u', v', rfl, rfl, hu', hp⟩ := ih h hu
          refine ⟨x :: u', v', rfl, by rw [escapePoint_cons, if_neg hx], hu', fun e => ?_⟩
          exact List.mem_cons_of_mem x (hp e)

theorem italic_eq_append {b : Bool} {s u v : List Char} {c : Char} (h : italic s = u ++ c :: v)
    (hu : lineStart b u = true) (hc : isControl c = true) :
    ∃ u' v', s = u' ++ c :: v' ∧ u = font 'I' ++ u' ∧ lineStart true u' = true := by
  rw [italic, List.append_assoc] at h
  obtain ⟨u', rfl, e, hu'⟩ :=
    eq_append_of_lineStart (by decide) (by decide) (by decide) h hu hc
  obtain ⟨v', e'⟩ := eq_append_of_isControl (by decide) e hc
  exact ⟨u', v', e', rfl, lineStart_true hu'⟩

/-- A control character that begins a line of bold source began it before, and was not the first
point. -/
theorem bold_eq_append {b : Bool} {s u v : List Char} {c : Char} (h : bold s = u ++ c :: v)
    (hu : lineStart b u = true) (hc : isControl c = true) :
    ∃ u' v', s = u' ++ c :: v' ∧ u = (zeroWidth ++ font 'B') ++ escapePoint u' ∧
      lineStart true u' = true ∧ (c = '.' → '.' ∈ u') := by
  rw [bold_eq] at h
  obtain ⟨w, rfl, e, hw⟩ :=
    eq_append_of_lineStart (by decide) (by decide) (by decide) h hu hc
  obtain ⟨v', e'⟩ := eq_append_of_isControl (by decide) e hc
  obtain ⟨u', v'', es, rfl, hu', hp⟩ := escapePoint_eq_append e' hw hc
  exact ⟨u', v'', es, rfl, lineStart_true hu', hp⟩

end ManualPages.Roff
