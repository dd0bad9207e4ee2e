import ManualPages.Proofs.Text.Split
import ManualPages.Signature

/-! # Signatures that cannot be shown

A subscript assignment is shown as `[i] = v`, so a comma has to separate the index from the value.
Every other signature can be shown: `show?_eq_none_iff`. -/

namespace ManualPages

/-- A signature cannot be shown exactly if it assigns to a subscript and its arguments, without
parentheses around them, have no comma. -/
theorem Signature.show?_eq_none_iff {s : Signature} : s.show? = none ↔
    s.name = ['[', ']', '='] ∧ ',' ∉ Signature.withoutParens s.args := by
  rw [← Text.splitLast_singleton_eq_none_iff]
  unfold Signature.show?
  split
  · next h => simp [h]
  · split
    · next h =>
        cases Text.splitLast [','] (Signature.withoutParens s.args) <;> simp [h]
    · next h => simp [h]

end ManualPages
