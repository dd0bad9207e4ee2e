import ManualPages.Number.Binary64
import ManualPages.Proofs.Number.Nearest
import Mathlib.Algebra.Order.Field.Power
import Mathlib.Tactic.NormNum
import Mathlib.Tactic.Ring

/-! # Rounding to binary fractions

The operations on binary fractions are exact on fractions, and then `ofFraction` rounds.

* It first scales the number so that it has 53 digits before the point, or as far as the least
  exponent lets it (`scales_scaleOf`), and rounds to a whole number there (`Rounds`).
* That is rounding to the format: a number of the format that is no whole number there is too small
  to be nearest (`Rounds.multiple_cases`, `isRounded_ofFraction`).
* So each operation keeps the order (`value_ofNat_le`, `value_div_le`, `roundAt_le`).  Where two
  equal numbers come from two fractions, these are the same, since results are `Canonical`. -/

namespace ManualPages.Number.Binary64

attribute [local instance (2000)] instPowNat

/-- The number that a binary fraction stands for. -/
def value (a : Binary64) : ℚ := a.significand * 2 ^ a.exponent

/-- The numbers with 53 binary digits. -/
def format : Set ℚ :=
  {x | ∃ a : Binary64, a.significand < 2 ^ (53 : ℕ) ∧ minExponent ≤ a.exponent ∧ x = a.value}

theorem value_nonneg (a : Binary64) : 0 ≤ a.value := by
  unfold value
  positivity

theorem value_eq_zero_iff {a : Binary64} : a.value = 0 ↔ a.significand = 0 := by
  rw [value, mul_eq_zero_iff_right (by positivity), Nat.cast_eq_zero]

theorem value_lt {a : Binary64} (h : a.significand < 2 ^ (53 : ℕ)) :
    a.value < 2 ^ (a.exponent + 53) := by
  rw [value, zpow_add₀ two_ne_zero, mul_comm]
  gcongr
  exact_mod_cast h

theorem natCast_mem_format {k : ℕ} (h : k < 2 ^ (53 : ℕ)) : (k : ℚ) ∈ format := by
  refine ⟨⟨k, 0⟩, h, (by decide : minExponent ≤ 0), ?_⟩
  simp [value]

theorem mul_pow_div_mul_pow (p q : ℚ) (k : ℤ) :
    p * 2 ^ k.toNat / (q * 2 ^ (-k).toNat) = p / q * 2 ^ k := by
  obtain ⟨n, rfl | rfl⟩ := k.eq_nat_or_neg
  · simp [mul_div_right_comm]
  · simp [div_eq_mul_inv]
    ring

theorem isRounded_divNearest_shift (n : ℕ) {d : ℕ} (hd : d ≠ 0) (k : ℤ) {m : ℕ}
    (h : m = divNearest (n * 2 ^ k.toNat) (d * 2 ^ (-k).toNat)) :
    IsRounded wholes (Even m) (n / d * 2 ^ k) m := by
  have pos : 0 < d * 2 ^ (-k).toNat := by positivity
  have rounded := isRounded_divNearest (n * 2 ^ k.toNat) pos
  rw [← h] at rounded
  push_cast at rounded
  rwa [mul_pow_div_mul_pow] at rounded

/-- The exponent `e` gives the number `x` a significand of 53 digits, or is the least one. -/
structure Scales (e : ℤ) (x : ℚ) : Prop where
  minExponent_le : minExponent ≤ e
  lt : x < 2 ^ (e + 53)
  le : e = minExponent ∨ 2 ^ (e + 52) ≤ x

theorem log2_div_log2 {n d : ℕ} (hn : n ≠ 0) (hd : d ≠ 0) :
    (2 : ℚ) ^ ((n.log2 : ℤ) - d.log2 - 1) ≤ n / d ∧
      (n / d : ℚ) < 2 ^ ((n.log2 : ℤ) - d.log2 + 1) := by
  have pos : (0 : ℚ) < d := mod_cast Nat.pos_of_ne_zero hd
  have nLow : (2 : ℚ) ^ (n.log2 : ℤ) ≤ n := mod_cast Nat.log2_self_le hn
  have nHigh : (n : ℚ) < 2 ^ ((n.log2 : ℤ) + 1) := mod_cast Nat.lt_log2_self (n := n)
  have dLow : (2 : ℚ) ^ (d.log2 : ℤ) ≤ d := mod_cast Nat.log2_self_le hd
  have dHigh : (d : ℚ) < 2 ^ ((d.log2 : ℤ) + 1) := mod_cast Nat.lt_log2_self (n := d)
  constructor
  · rw [sub_sub, zpow_sub₀ two_ne_zero]
    gcongr
  · rw [sub_add_eq_add_sub, zpow_sub₀ two_ne_zero]
    calc (n / d : ℚ) < 2 ^ ((n.log2 : ℤ) + 1) / d := by gcongr
      _ ≤ 2 ^ ((n.log2 : ℤ) + 1) / 2 ^ (d.log2 : ℤ) := by gcongr

theorem two_pow_le_div_iff {n d : ℕ} (hd : d ≠ 0) (e : ℤ) :
    (if 0 ≤ e then d * 2 ^ (e.toNat + 52) ≤ n else d * 2 ^ (52 : ℕ) ≤ n * 2 ^ (-e).toNat) ↔
      (2 : ℚ) ^ (e + 52) ≤ n / d := by
  have pos : (0 : ℚ) < d := mod_cast Nat.pos_of_ne_zero hd
  rw [le_div_iff₀ pos]
  obtain ⟨k, rfl | rfl⟩ := e.eq_nat_or_neg
  · rw [if_pos (Int.natCast_nonneg k), Int.toNat_natCast, mul_comm]
    exact_mod_cast Iff.rfl
  · rw [zpow_add₀ two_ne_zero, zpow_neg, zpow_natCast, mul_assoc, inv_mul_le_iff₀ (by positivity),
      mul_comm (2 ^ (52 : ℤ) : ℚ), mul_comm (2 ^ k : ℚ)]
    split
    · next h =>
      obtain rfl : k = 0 := by omega
      simpa using mod_cast Iff.rfl
    · rw [neg_neg, Int.toNat_natCast]
      exact_mod_cast Iff.rfl

theorem scaleOf_eq (n : ℕ) {d : ℕ} (hd : d ≠ 0) :
    let e : ℤ := n.log2 - d.log2 - 52
    scaleOf n d = max minExponent (if (2 : ℚ) ^ (e + 52) ≤ n / d then e else e - 1) := by
  unfold scaleOf
  simp only [two_pow_le_div_iff hd]

theorem scales_max {e : ℤ} {x : ℚ} (low : 2 ^ (e + 52) ≤ x) (high : x < 2 ^ (e + 53)) :
    Scales (max minExponent e) x := by
  refine ⟨le_max_left _ _, high.trans_le (zpow_le_zpow_right₀ one_le_two (by omega)), ?_⟩
  rcases Int.le_total e minExponent with h | h
  · exact .inl (max_eq_left h)
  · rw [max_eq_right h]
    exact .inr low

theorem scales_scaleOf {n d : ℕ} (hn : n ≠ 0) (hd : d ≠ 0) : Scales (scaleOf n d) (n / d) := by
  obtain ⟨low, high⟩ := log2_div_log2 hn hd
  rw [scaleOf_eq n hd]
  set e : ℤ := n.log2 - d.log2 - 52 with he
  split
  · next h =>
    refine scales_max h ?_
    rwa [show e + 53 = n.log2 - d.log2 + 1 by omega]
  · next h =>
    refine scales_max ?_ ?_
    · rwa [show e - 1 + 52 = n.log2 - d.log2 - 1 by omega]
    · rw [show e - 1 + 53 = e + 52 by omega]
      exact not_le.mp h

/-! ### Rounding to the format -/

/-- The number `x` is rounded to `m * 2 ^ e`. -/
structure Rounds (x : ℚ) (m : ℕ) (e : ℤ) : Prop where
  scales : Scales e x
  rounded : IsRounded wholes (Even m) (x / 2 ^ e) m

/-- The binary fraction `m * 2 ^ e`, where `m` may have one digit more than it should. -/
def carry (m : ℕ) (e : ℤ) : Binary64 :=
  if m = 2 ^ (53 : ℕ) then ⟨2 ^ (52 : ℕ), e + 1⟩ else ⟨m, e⟩

/-- The significand has 53 digits, or the exponent is the least one. -/
structure Canonical (a : Binary64) : Prop where
  significand_lt : a.significand < 2 ^ (53 : ℕ)
  minExponent_le : minExponent ≤ a.exponent
  normal : a.exponent = minExponent ∨ 2 ^ (52 : ℕ) ≤ a.significand

variable {x : ℚ} {m : ℕ} {e : ℤ}

theorem value_carry (m : ℕ) (e : ℤ) : (carry m e).value = m * 2 ^ e := by
  unfold carry
  split
  · next h =>
    rw [h, value, zpow_add_one₀ two_ne_zero]
    push_cast
    ring
  · rfl

theorem Rounds.le (h : Rounds x m e) : m ≤ 2 ^ (53 : ℕ) := by
  have bound : x / 2 ^ e < (2 ^ (53 : ℕ) : ℕ) := by
    rw [div_lt_iff₀ (by positivity)]
    have lt := h.scales.lt
    rw [zpow_add₀ two_ne_zero, mul_comm] at lt
    exact_mod_cast lt
  exact_mod_cast h.rounded.le_of_lt (isNearest_self (natCast_mem_wholes _)) bound

theorem Rounds.ge (h : Rounds x m e) (normal : 2 ^ (e + 52) ≤ x) : 2 ^ (52 : ℕ) ≤ m := by
  have bound : ((2 ^ (52 : ℕ) : ℕ) : ℚ) ≤ x / 2 ^ e := by
    rw [le_div_iff₀ (by positivity)]
    rw [zpow_add₀ two_ne_zero, mul_comm] at normal
    exact_mod_cast normal
  have own : IsNearest wholes ((2 ^ (52 : ℕ) : ℕ) : ℚ) (2 ^ (52 : ℕ) : ℕ) :=
    isNearest_self (natCast_mem_wholes _)
  have le := own.le_of_le h.rounded.toIsNearest bound fun same =>
    (h.rounded.eq_of_mem (same ▸ natCast_mem_wholes _)).symm ▸ same
  exact_mod_cast le

theorem Rounds.canonical (h : Rounds x m e) : Canonical (carry m e) := by
  have low := h.scales.minExponent_le
  unfold carry
  split
  · exact ⟨by norm_num, low.trans (by simp), .inr le_rfl⟩
  · next ne => exact ⟨lt_of_le_of_ne h.le ne, low, h.scales.le.imp id h.ge⟩

theorem even_carry (h : Even m) (e : ℤ) : Even (carry m e).significand := by
  unfold carry
  split
  · exact (even_two.pow_of_ne_zero (by decide) : Even (2 ^ (52 : ℕ)))
  · exact h

/-- A number of the format with the exponent of the result or a larger one. -/
theorem Rounds.multiple_cases (h : Rounds x m e) {z : ℚ} (hz : z ∈ format) :
    (∃ k : ℕ, z = k * 2 ^ e) ∨ |x - m * 2 ^ e| < |x - z| := by
  obtain ⟨b, digits, least, rfl⟩ := hz
  rcases le_or_gt e b.exponent with le | lt
  · obtain ⟨k, gap⟩ := Int.eq_ofNat_of_zero_le (Int.sub_nonneg_of_le le)
    refine .inl ⟨b.significand * 2 ^ k, ?_⟩
    rw [value, show b.exponent = k + e by omega, zpow_add₀ two_ne_zero, zpow_natCast]
    push_cast
    ring
  · -- `b` is farther from `x` than the least number with the exponent `e` and 53 digits
    right
    have low : 2 ^ (e + 52) ≤ x := h.scales.le.resolve_left (by omega)
    have below : b.value < 2 ^ (e + 52) :=
      (value_lt digits).trans_le (zpow_le_zpow_right₀ one_le_two (by omega))
    have near : |x - m * 2 ^ e| ≤ |x - 2 ^ (e + 52)| := by
      rw [zpow_add₀ two_ne_zero, mul_comm (2 ^ e : ℚ), abs_sub_mul (by positivity),
        abs_sub_mul (by positivity)]
      have unit := h.rounded.dist_le _ (natCast_mem_wholes (2 ^ (52 : ℕ)))
      exact mul_le_mul_of_nonneg_right (mod_cast unit) (by positivity)
    rw [abs_of_nonneg (sub_nonneg.mpr low)] at near
    rw [abs_of_pos (by linarith : 0 < x - b.value)]
    linarith

theorem Rounds.isRounded (h : Rounds x m e) :
    IsRounded format (Even (carry m e).significand) x (carry m e).value := by
  have pos : (0 : ℚ) < 2 ^ e := by positivity
  refine ⟨⟨⟨_, h.canonical.significand_lt, h.canonical.minExponent_le, rfl⟩, ?_⟩, ?_⟩
  · intro z hz
    rw [value_carry]
    rcases h.multiple_cases hz with ⟨k, rfl⟩ | farther
    · rw [abs_sub_mul pos, abs_sub_mul pos]
      exact mul_le_mul_of_nonneg_right (h.rounded.dist_le _ (natCast_mem_wholes k)) pos.le
    · exact farther.le
  · intro z hz ne tie
    rw [value_carry] at ne tie
    rcases h.multiple_cases hz with ⟨k, rfl⟩ | farther
    · rw [abs_sub_mul pos, abs_sub_mul pos, mul_left_inj' pos.ne'] at tie
      have apart : (k : ℚ) ≠ m := fun same => ne (by rw [same])
      exact even_carry (h.rounded.even_of_tie _ (natCast_mem_wholes k) apart tie) e
    · exact absurd tie farther.ne'

theorem rounds_carry {n d : ℕ} (hn : n ≠ 0) (hd : d ≠ 0) (shift : ℤ) :
    ∃ m e, Rounds (n / d * 2 ^ shift) m e ∧ ofFraction n d shift = carry m e := by
  have n' : n * 2 ^ shift.toNat ≠ 0 := by positivity
  have d' : d * 2 ^ (-shift).toNat ≠ 0 := by positivity
  have scales := scales_scaleOf n' d'
  push_cast at scales
  rw [mul_pow_div_mul_pow] at scales
  set e := scaleOf (n * 2 ^ shift.toNat) (d * 2 ^ (-shift).toNat)
  have rounded := isRounded_divNearest_shift (n * 2 ^ shift.toNat) d' (-e) rfl
  push_cast at rounded
  rw [mul_pow_div_mul_pow, zpow_neg, ← div_eq_mul_inv] at rounded
  rw [ofFraction, if_neg hn]
  refine ⟨_, e, ⟨scales, rounded⟩, ?_⟩
  rw [neg_neg]
  rfl

/-- A fraction is rounded to the nearest number of the format; of two equally near ones, to that
with the even significand. -/
theorem isRounded_ofFraction (n : ℕ) {d : ℕ} (hd : d ≠ 0) (shift : ℤ) :
    IsRounded format (Even (ofFraction n d shift).significand) (n / d * 2 ^ shift)
      (ofFraction n d shift).value := by
  rcases eq_or_ne n 0 with rfl | hn
  · have zero : (ofFraction 0 d shift).value = (0 : ℕ) := by simp [ofFraction, value]
    have own := isNearest_self (natCast_mem_format (k := 0) (by norm_num))
    rw [zero]
    exact ⟨by simpa using own, fun _ _ _ _ => by simp [ofFraction]⟩
  · obtain ⟨m, e, rounds, eq⟩ := rounds_carry hn hd shift
    rw [eq]
    exact rounds.isRounded

theorem canonical_ofFraction (n : ℕ) {d : ℕ} (hd : d ≠ 0) (shift : ℤ) :
    Canonical (ofFraction n d shift) := by
  rcases eq_or_ne n 0 with rfl | hn
  · exact ⟨by norm_num [ofFraction], le_rfl, .inl rfl⟩
  · obtain ⟨m, e, rounds, eq⟩ := rounds_carry hn hd shift
    rw [eq]
    exact rounds.canonical

theorem Canonical.exponent_le {a b : Binary64} (ha : Canonical a) (hb : Canonical b)
    (h : a.value ≤ b.value) : a.exponent ≤ b.exponent := by
  by_contra lt
  have normal : 2 ^ (52 : ℕ) ≤ a.significand :=
    ha.normal.resolve_left (by have := hb.minExponent_le; omega)
  have below : b.value < a.value :=
    calc b.value < 2 ^ (b.exponent + 53) := value_lt hb.significand_lt
      _ ≤ 2 ^ (a.exponent + 52) := zpow_le_zpow_right₀ one_le_two (by omega)
      _ ≤ a.value := by
          rw [value, zpow_add₀ two_ne_zero, mul_comm]
          gcongr
          exact_mod_cast normal
  exact absurd h below.not_ge

theorem Canonical.isFinite_of_le {a b : Binary64} (ha : Canonical a) (hb : Canonical b)
    (h : a.value ≤ b.value) (finite : b.isFinite) : a.isFinite := by
  have exponents := ha.exponent_le hb h
  simp only [isFinite, Bool.or_eq_true, beq_iff_eq, decide_eq_true_eq] at finite ⊢
  rcases finite with zero | bound
  · rw [value_eq_zero_iff.mpr zero] at h
    exact .inl (value_eq_zero_iff.mp (le_antisymm h a.value_nonneg))
  · exact .inr (exponents.trans bound)

/-- A number has one canonical form. -/
theorem Canonical.eq_of_value_eq {a b : Binary64} (ha : Canonical a) (hb : Canonical b)
    (h : a.value = b.value) : a = b := by
  have exponents : a.exponent = b.exponent :=
    le_antisymm (ha.exponent_le hb h.le) (hb.exponent_le ha h.ge)
  have significands : a.significand = b.significand := by
    rw [value, value, exponents, mul_left_inj' (by positivity)] at h
    exact_mod_cast h
  cases a
  cases b
  exact congrArg₂ Binary64.mk significands exponents

/-! ### Operations -/

theorem isRounded_ofNat (n : ℕ) :
    IsRounded format (Even (ofNat n).significand) n (ofNat n).value := by
  have rounded := isRounded_ofFraction n one_ne_zero 0
  rwa [Nat.cast_one, div_one, zpow_zero, mul_one] at rounded

theorem isRounded_div (a : Binary64) {b : Binary64} (hb : b.significand ≠ 0) :
    IsRounded format (Even (a.div b).significand) (a.value / b.value) (a.div b).value := by
  have rounded := isRounded_ofFraction a.significand hb (a.exponent - b.exponent)
  rwa [zpow_sub₀ two_ne_zero, div_mul_div_comm] at rounded

theorem isRounded_roundAt (scale : ℕ) (a : Binary64) :
    IsRounded wholes (Even (a.roundAt scale)) (a.value * scale) (a.roundAt scale) := by
  have rounded := isRounded_divNearest_shift (a.significand * scale) one_ne_zero a.exponent
    (m := a.roundAt scale) (by rw [one_mul]; rfl)
  rwa [Nat.cast_one, div_one, Nat.cast_mul, mul_right_comm] at rounded

theorem value_ofNat {n : ℕ} (h : n < 2 ^ (53 : ℕ)) : (ofNat n).value = n :=
  (isRounded_ofNat n).eq_of_mem (natCast_mem_format h)

theorem canonical_ofNat (n : ℕ) : Canonical (ofNat n) := canonical_ofFraction n one_ne_zero 0

theorem canonical_div (a : Binary64) {b : Binary64} (hb : b.significand ≠ 0) :
    Canonical (a.div b) := canonical_ofFraction a.significand hb (a.exponent - b.exponent)

/-! ### Order -/

theorem value_ofNat_le {n m : ℕ} (h : n ≤ m) : (ofNat n).value ≤ (ofNat m).value :=
  (isRounded_ofNat n).le_of_le (isRounded_ofNat m).toIsNearest (mod_cast h) fun same => by
    rw [Nat.cast_inj.mp same]

variable {a b : Binary64}

theorem value_div_le (ha : Canonical a) (hb : Canonical b) (h : a.value ≤ b.value) {c : Binary64}
    (hc : c.significand ≠ 0) : (a.div c).value ≤ (b.div c).value := by
  have pos : 0 < c.value := lt_of_le_of_ne c.value_nonneg (Ne.symm (mt value_eq_zero_iff.mp hc))
  refine (isRounded_div a hc).le_of_le (isRounded_div b hc).toIsNearest (by gcongr) fun same => ?_
  rw [ha.eq_of_value_eq hb ((div_left_inj' pos.ne').mp same)]

theorem roundAt_le (ha : Canonical a) (hb : Canonical b) (h : a.value ≤ b.value) {scale : ℕ}
    (hs : scale ≠ 0) : a.roundAt scale ≤ b.roundAt scale := by
  have scale_ne : (scale : ℚ) ≠ 0 := mod_cast hs
  have le := (isRounded_roundAt scale a).le_of_le (isRounded_roundAt scale b).toIsNearest (by gcongr)
    fun same => by rw [ha.eq_of_value_eq hb (mul_right_cancel₀ scale_ne same)]
  exact_mod_cast le

end ManualPages.Number.Binary64
