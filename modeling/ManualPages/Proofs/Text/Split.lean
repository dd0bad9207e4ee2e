import ManualPages.Text.Split
import Mathlib.Data.List.Infix

/-! # Where a text is cut

A text is cut where the separator occurs in it, and not at all if it does not occur.

* `splitFirst_singleton_eq_some_iff`: the first cut at a character has no such character in front of
  it.
* `splitLast_eq_some_iff`: behind the first character of the last cut the separator does not occur
  again, not even one that overlaps with it. -/

namespace ManualPages.Text

variable {sep s a b : List Char} {c : Char}

theorem stripFront_eq_none_iff : stripFront sep s = none ↔ ¬ sep <+: s := by
  rw [Option.eq_none_iff_forall_ne_some, List.IsPrefix, not_exists]
  refine forall_congr' fun r => not_congr ?_
  rw [stripFront_eq_some, eq_comm]

/-! ### The first cut -/

theorem splitFirst_eq_none_iff : splitFirst sep s = none ↔ ¬ sep <:+: s := by
  induction s with
  | nil =>
      rw [splitFirst, Option.map_eq_none_iff, stripFront_eq_none_iff, List.prefix_nil,
        List.infix_nil]
  | cons c s ih =>
      rw [List.infix_cons_iff, not_or, ← ih, ← stripFront_eq_none_iff, splitFirst]
      cases stripFront sep (c :: s) <;> simp

theorem splitFirst_singleton_eq_none_iff : splitFirst [c] s = none ↔ c ∉ s := by
  rw [splitFirst_eq_none_iff, List.singleton_infix_iff]

theorem splitFirst_append (h : c ∉ a) : splitFirst [c] (a ++ c :: b) = some (a, b) := by
  induction a with
  | nil => simp [splitFirst, stripFront]
  | cons x a ih =>
      rw [List.mem_cons, not_or] at h
      simp [splitFirst, stripFront, h.1, ih h.2]

theorem splitFirst_singleton_eq_some_iff :
    splitFirst [c] s = some (a, b) ↔ s = a ++ c :: b ∧ c ∉ a := by
  constructor
  · intro h
    have occurs : c ∈ s := by
      rw [append_of_splitFirst h]
      simp
    obtain ⟨u, v, rfl, first⟩ := List.eq_append_cons_of_mem occurs
    rw [splitFirst_append first] at h
    cases h
    exact ⟨rfl, first⟩
  · rintro ⟨rfl, first⟩
    exact splitFirst_append first

/-! ### The last cut -/

theorem splitLast_eq_none_iff : splitLast sep s = none ↔ ¬ sep <:+: s := by
  induction s with
  | nil =>
      rw [splitLast, Option.map_eq_none_iff, stripFront_eq_none_iff, List.prefix_nil,
        List.infix_nil]
  | cons c s ih =>
      rw [List.infix_cons_iff, not_or, ← ih, ← stripFront_eq_none_iff, splitLast]
      cases splitLast sep s <;> simp

theorem splitLast_singleton_eq_none_iff : splitLast [c] s = none ↔ c ∉ s := by
  rw [splitLast_eq_none_iff, List.singleton_infix_iff]

theorem splitLast_append (hsep : sep ≠ []) (last : ¬ sep <:+: (sep ++ b).tail) :
    splitLast sep (a ++ sep ++ b) = some (a, b) := by
  induction a with
  | nil =>
      obtain ⟨c, r, rfl⟩ := List.exists_cons_of_ne_nil hsep
      have absent : splitLast (c :: r) (r ++ b) = none := splitLast_eq_none_iff.mpr last
      have front : stripFront (c :: r) (c :: (r ++ b)) = some b := stripFront_eq_some.mpr rfl
      simp [splitLast, absent, front]
  | cons x a ih => simp only [List.cons_append, splitLast, ih]

theorem not_infix_of_splitLast (hsep : sep ≠ []) (h : splitLast sep s = some (a, b)) :
    ¬ sep <:+: (sep ++ b).tail := by
  induction s generalizing a with
  | nil =>
      have absent : splitLast sep [] = none :=
        splitLast_eq_none_iff.mpr fun h => hsep (List.infix_nil.mp h)
      rw [absent] at h
      cases h
  | cons c s ih =>
      rw [splitLast] at h
      cases hs : splitLast sep s with
      | some p =>
          rw [hs] at h
          cases h
          exact ih hs
      | none =>
          rw [hs] at h
          obtain ⟨r, hr, e⟩ := Option.map_eq_some_iff.mp h
          cases e
          rw [← stripFront_eq_some.mp hr]
          exact splitLast_eq_none_iff.mp hs

theorem splitLast_eq_some_iff (hsep : sep ≠ []) : splitLast sep s = some (a, b) ↔
    s = a ++ sep ++ b ∧ ¬ sep <:+: (sep ++ b).tail := by
  constructor
  · exact fun h => ⟨append_of_splitLast h, not_infix_of_splitLast hsep h⟩
  · rintro ⟨rfl, last⟩
    exact splitLast_append hsep last

theorem splitLast_singleton_eq_some_iff :
    splitLast [c] s = some (a, b) ↔ s = a ++ c :: b ∧ c ∉ b := by
  rw [splitLast_eq_some_iff (List.cons_ne_nil c []), List.append_assoc, List.singleton_append,
    List.tail_cons, List.singleton_infix_iff]

end ManualPages.Text
