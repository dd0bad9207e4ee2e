import ManualPages.Number.Rounding
import Mathlib.Algebra.Order.Ring.Abs
import Mathlib.Data.Rat.Cast.Order
import Mathlib.Tactic.FieldSimp
import Mathlib.Tactic.Linarith
import Mathlib.Tactic.Positivity
import Mathlib.Tactic.Ring

/-! # The nearest number

Rounding goes to a nearest number of a grid: of all whole numbers, or of all numbers of a format.

* What is on the grid already stays as it is: `IsNearest.eq_of_mem`.
* A larger number is not rounded lower, whatever the grid and whoever of two equally near numbers is
  taken, as long as the same number is not rounded in two ways: `IsNearest.le_of_le`.
* `IsRounded` adds that the even one of two equally near numbers is taken.  `divNearest` rounds to a
  whole number: `isRounded_divNearest`. -/

namespace ManualPages.Number

variable {grid : Set ℚ} {x y u v : ℚ}

/-- The number `u` is on the grid, and no number of the grid is nearer to `x`. -/
structure IsNearest (grid : Set ℚ) (x u : ℚ) : Prop where
  mem : u ∈ grid
  dist_le : ∀ z ∈ grid, |x - u| ≤ |x - z|

theorem isNearest_self (hx : x ∈ grid) : IsNearest grid x x := by
  refine ⟨hx, fun z _ => ?_⟩
  rw [sub_self, abs_zero]
  exact abs_nonneg _

theorem IsNearest.eq_of_mem (h : IsNearest grid x u) (hx : x ∈ grid) : u = x := by
  have dist := h.dist_le x hx
  rw [sub_self, abs_zero, abs_nonpos_iff, sub_eq_zero] at dist
  exact dist.symm

theorem IsNearest.le_of_lt (hu : IsNearest grid x u) (hv : IsNearest grid y v) (h : x < y) :
    u ≤ v := by
  by_contra above
  -- `u` and `v` lie in the wrong order, and each is no farther from its number than the other
  have near : (x - u) ^ 2 ≤ (x - v) ^ 2 := sq_le_sq.mpr (hu.dist_le v hv.mem)
  have near' : (y - v) ^ 2 ≤ (y - u) ^ 2 := sq_le_sq.mpr (hv.dist_le u hu.mem)
  nlinarith

theorem IsNearest.le_of_le (hu : IsNearest grid x u) (hv : IsNearest grid y v) (h : x ≤ y)
    (same : x = y → u = v) : u ≤ v := by
  rcases h.lt_or_eq with lt | eq
  · exact hu.le_of_lt hv lt
  · exact (same eq).le

/-- The number `u` is nearest to `x`, and if another number of the grid is as near, `u` is even in
the sense of the grid. -/
structure IsRounded (grid : Set ℚ) (even : Prop) (x u : ℚ) : Prop extends IsNearest grid x u where
  even_of_tie : ∀ z ∈ grid, z ≠ u → |x - z| = |x - u| → even

theorem abs_sub_mul {c : ℚ} (hc : 0 < c) (x w : ℚ) : |x - w * c| = |x / c - w| * c := by
  calc |x - w * c| = |(x / c - w) * c| := by rw [sub_mul, div_mul_cancel₀ x hc.ne']
    _ = |x / c - w| * c := by rw [abs_mul, abs_of_pos hc]

/-! ### Whole numbers -/

/-- The whole numbers. -/
def wholes : Set ℚ := Set.range ((↑) : ℕ → ℚ)

theorem natCast_mem_wholes (n : ℕ) : (n : ℚ) ∈ wholes := ⟨n, rfl⟩

theorem abs_sub_divNearest_le (n : ℕ) {d : ℕ} (hd : 0 < d) :
    |(n : ℚ) / d - divNearest n d| ≤ 1 / 2 := by
  have hd' : (0 : ℚ) < d := mod_cast hd
  have high : (2 * d * divNearest n d : ℚ) ≤ 2 * n + d := mod_cast divNearest_le n hd
  have low : (2 * n : ℚ) ≤ 2 * d * divNearest n d + d := mod_cast le_divNearest n hd
  rw [abs_le, le_sub_iff_add_le, sub_le_iff_le_add, le_div_iff₀ hd', div_le_iff₀ hd']
  constructor <;> linarith

theorem abs_sub_divNearest_lt {n d : ℕ} (hd : 0 < d) (odd : ¬ Even (divNearest n d)) :
    |(n : ℚ) / d - divNearest n d| < 1 / 2 := by
  have hd' : (0 : ℚ) < d := mod_cast hd
  have parts : d * (n / d) + n % d = n := Nat.div_add_mod n d
  have near : 2 * (d * divNearest n d) < 2 * n + d ∧ 2 * n < 2 * (d * divNearest n d) + d := by
    rcases divNearest_cases n d with ⟨hr, he⟩ | ⟨hr, he⟩ | ⟨tie, -⟩
    · rw [he]
      omega
    · have := Nat.mod_lt n hd
      rw [he, Nat.mul_add]
      omega
    · exact absurd (Nat.even_iff.mpr (divNearest_even_of_tie tie)) odd
  have high : (2 * (d * divNearest n d) : ℚ) < 2 * n + d := mod_cast near.1
  have low : (2 * n : ℚ) < 2 * (d * divNearest n d) + d := mod_cast near.2
  rw [abs_lt, lt_sub_iff_add_lt, sub_lt_iff_lt_add, lt_div_iff₀ hd', div_lt_iff₀ hd']
  constructor <;> linarith

theorem one_le_abs_sub_add_abs_sub {j k : ℕ} (h : j ≠ k) (x : ℚ) :
    1 ≤ |x - j| + |x - k| := by
  have apart : (1 : ℚ) ≤ |(j : ℚ) - k| := by
    have ne : (j : ℤ) - k ≠ 0 := sub_ne_zero.mpr (mod_cast h)
    exact_mod_cast Int.one_le_abs ne
  calc (1 : ℚ) ≤ |(j : ℚ) - k| := apart
    _ ≤ |(j : ℚ) - x| + |x - k| := abs_sub_le _ _ _
    _ = |x - j| + |x - k| := by rw [abs_sub_comm (j : ℚ) x]

theorem isRounded_divNearest (n : ℕ) {d : ℕ} (hd : 0 < d) :
    IsRounded wholes (Even (divNearest n d)) ((n : ℚ) / d) (divNearest n d) := by
  refine ⟨⟨natCast_mem_wholes _, ?_⟩, ?_⟩
  · rintro z ⟨k, rfl⟩
    rcases eq_or_ne k (divNearest n d) with rfl | ne
    · exact le_rfl
    · have half := abs_sub_divNearest_le n hd
      have apart := one_le_abs_sub_add_abs_sub ne ((n : ℚ) / d)
      linarith
  · rintro z ⟨k, rfl⟩ ne tie
    by_contra odd
    have half := abs_sub_divNearest_lt hd odd
    have apart := one_le_abs_sub_add_abs_sub (mt (congrArg Nat.cast) ne) ((n : ℚ) / d)
    linarith

end ManualPages.Number
