import ManualPages.Duration
import ManualPages.Proofs.Text.Split
import Mathlib.Algebra.Order.Field.Basic
import Mathlib.Data.List.DropRight
import Mathlib.Data.List.Induction
import Mathlib.Data.Rat.Cast.Order
import Mathlib.Tactic.Ring

/-! # Decimals as text

`decimal?` is the number that a text stands for: digits, or digits with a point and places behind
them.  `stripZeros` takes away the zeros at the end of a text, and then a point that is left at the
end.  Of a text with a point it takes nothing that stands before the point (`stripped`), so
the number stays the same (`tidies_stripZeros`). -/

namespace ManualPages.Number

open Duration (stripEnd stripZeros)

attribute [local instance (2000)] instPowNat

/-- The number that digits stand for. -/
def digits? (s : List Char) : Option ℕ :=
  if s ≠ [] ∧ s.all Char.isDigit then some (Nat.ofDigitChars 10 s 0) else none

/-- The number that a text stands for. -/
def decimal? (s : List Char) : Option ℚ :=
  match Text.splitFirst ['.'] s with
  | none => (digits? s).map (↑)
  | some (whole, places) =>
    match digits? whole, digits? places with
    | some w, some p => some (w + p / 10 ^ places.length)
    | _, _ => none

/-- Only digits, and at least one. -/
def IsDigits (s : List Char) : Prop := s ≠ [] ∧ ∀ c ∈ s, c.isDigit

variable {w p : List Char}

theorem isDigits_toDigits (n : ℕ) : IsDigits (Nat.toDigits 10 n) :=
  ⟨Nat.toDigits_ne_nil, fun _ h => Nat.isDigit_of_mem_toDigits (by decide) (by decide) h⟩

theorem IsDigits.point_not_mem (h : IsDigits w) : '.' ∉ w := fun mem => absurd (h.2 _ mem) (by decide)

theorem IsDigits.digits? (h : IsDigits w) : digits? w = some (Nat.ofDigitChars 10 w 0) :=
  if_pos ⟨h.1, List.all_eq_true.mpr h.2⟩

theorem decimal?_digits (h : IsDigits w) : decimal? w = some (Nat.ofDigitChars 10 w 0 : ℚ) := by
  rw [decimal?, Text.splitFirst_singleton_eq_none_iff.mpr h.point_not_mem, h.digits?]
  rfl

theorem decimal?_point (hw : IsDigits w) (hp : IsDigits p) : decimal? (w ++ '.' :: p) =
    some (Nat.ofDigitChars 10 w 0 + Nat.ofDigitChars 10 p 0 / 10 ^ p.length : ℚ) := by
  simp only [decimal?, Text.splitFirst_append hw.point_not_mem, hw.digits?, hp.digits?]

/-! ### Zeros at the end -/

theorem ofDigitChars_concat_zero (s : List Char) :
    Nat.ofDigitChars 10 (s ++ ['0']) 0 = 10 * Nat.ofDigitChars 10 s 0 := by
  rw [Nat.ofDigitChars_append]
  rfl

theorem stripEnd_concat_self (s : List Char) (c : Char) : stripEnd c (s ++ [c]) = stripEnd c s :=
  List.rdropWhile_concat_pos _ _ _ (beq_self_eq_true c)

theorem stripEnd_concat_ne {c d : Char} (s : List Char) (h : d ≠ c) :
    stripEnd c (s ++ [d]) = s ++ [d] :=
  List.rdropWhile_concat_neg _ _ _ (by simpa using h)

theorem stripEnd_eq_self {c : Char} {s : List Char} (h : c ∉ s) : stripEnd c s = s := by
  refine List.rdropWhile_eq_self_iff.mpr fun ne last => ?_
  rw [beq_iff_eq] at last
  exact h (last ▸ List.getLast_mem ne)

theorem stripZeros_concat_zero (s : List Char) : stripZeros (s ++ ['0']) = stripZeros s := by
  rw [stripZeros, stripEnd_concat_self, stripZeros]

theorem stripZeros_concat {c : Char} (s : List Char) (zero : c ≠ '0') (point : c ≠ '.') :
    stripZeros (s ++ [c]) = s ++ [c] := by
  rw [stripZeros, stripEnd_concat_ne s zero, stripEnd_concat_ne s point]

theorem stripZeros_point (h : IsDigits w) : stripZeros (w ++ ['.']) = w := by
  rw [stripZeros, stripEnd_concat_ne w (by decide), stripEnd_concat_self,
    stripEnd_eq_self h.point_not_mem]

/-- The places without the zeros at their end, and without the point if nothing is left of them. -/
inductive Stripped (w p : List Char) : List Char → Prop
  | whole (zero : Nat.ofDigitChars 10 p 0 = 0) : Stripped w p w
  | places {q : List Char} {c : Char} (digits : IsDigits (q ++ [c])) (last : c ≠ '0')
      (same : (Nat.ofDigitChars 10 p 0 / 10 ^ p.length : ℚ) =
        Nat.ofDigitChars 10 (q ++ [c]) 0 / 10 ^ (q ++ [c]).length) :
      Stripped w p (w ++ '.' :: (q ++ [c]))

theorem stripped (hw : IsDigits w) (hp : ∀ c ∈ p, c.isDigit) :
    Stripped w p (stripZeros (w ++ '.' :: p)) := by
  induction p using List.reverseRecOn with
  | nil =>
      rw [stripZeros_point hw]
      exact .whole rfl
  | append_singleton p c ih =>
      have before : ∀ c ∈ p, c.isDigit := fun x hx => hp x (List.mem_append_left _ hx)
      rw [← List.cons_append, ← List.append_assoc]
      by_cases h : c = '0'
      · subst h
        rw [stripZeros_concat_zero]
        generalize stripZeros (w ++ '.' :: p) = s at ih ⊢
        cases ih before with
        | whole zero => exact .whole (by rw [ofDigitChars_concat_zero, zero])
        | places digits last same =>
            refine .places digits last ?_
            rw [ofDigitChars_concat_zero, List.length_append, List.length_singleton, ← same]
            push_cast
            rw [pow_succ', mul_div_mul_left _ _ (by norm_num)]
      · have digit : c.isDigit := hp c (by simp)
        have point : c ≠ '.' := by
          rintro rfl
          exact absurd digit (by decide)
        rw [stripZeros_concat _ h point, List.append_assoc, List.cons_append]
        exact .places ⟨by simp, hp⟩ h rfl

/-- The text `s` is the same number as `t`, and neither a point nor a zero of the places ends it. -/
structure Tidies (t s : List Char) : Prop where
  same : decimal? s = decimal? t
  point : s.getLast? ≠ some '.'
  zero : '.' ∈ s → s.getLast? ≠ some '0'

theorem tidies_stripZeros (hw : IsDigits w) (hp : IsDigits p) :
    Tidies (w ++ '.' :: p) (stripZeros (w ++ '.' :: p)) := by
  have cases := stripped hw hp.2
  generalize stripZeros (w ++ '.' :: p) = s at cases ⊢
  cases cases with
  | whole zero =>
      refine ⟨?_, fun last => hw.point_not_mem (List.mem_of_getLast? last),
        fun point => absurd point hw.point_not_mem⟩
      rw [decimal?_digits hw, decimal?_point hw hp, zero, Nat.cast_zero, zero_div, add_zero]
  | @places q c digits last same =>
      have ends : (w ++ '.' :: (q ++ [c])).getLast? = some c :=
        List.getLast?_eq_some_iff.mpr ⟨w ++ '.' :: q, by simp⟩
      refine ⟨?_, ?_, fun _ => ?_⟩
      · rw [decimal?_point hw digits, decimal?_point hw hp, same]
      · rw [ends]
        intro point
        exact digits.point_not_mem (by simp [Option.some.inj point])
      · rw [ends]
        exact fun zero => last (Option.some.inj zero)

end ManualPages.Number
