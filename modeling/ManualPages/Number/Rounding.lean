/-! # Rounding a quotient

`divNearest n d` is the integer nearest to `n / d`; of two equally near ones it is the even one.
It is off by at most half (`divNearest_le`, `le_divNearest`), and a tie goes to the even neighbour
(`divNearest_even_of_tie`). -/

namespace ManualPages.Number

/-- The integer nearest to `n / d`, ties to even. -/
def divNearest (n d : Nat) : Nat :=
  let q := n / d
  let r := n % d
  if 2 * r < d then q else if d < 2 * r then q + 1 else q + q % 2

theorem divNearest_cases (n d : Nat) :
    (2 * (n % d) < d ∧ divNearest n d = n / d) ∨
    (d < 2 * (n % d) ∧ divNearest n d = n / d + 1) ∨
    (2 * (n % d) = d ∧ divNearest n d = n / d + n / d % 2) := by
  unfold divNearest
  dsimp only
  split
  · exact .inl ⟨by assumption, rfl⟩
  · split
    · exact .inr (.inl ⟨by assumption, rfl⟩)
    · exact .inr (.inr ⟨by omega, rfl⟩)

theorem divNearest_le {d : Nat} (n : Nat) (hd : 0 < d) : 2 * d * divNearest n d ≤ 2 * n + d := by
  have h := Nat.div_add_mod n d
  have hm := Nat.mod_lt n hd
  have hq : d * (n / d) ≤ n := Nat.mul_div_le n d
  rcases divNearest_cases n d with ⟨hr, he⟩ | ⟨hr, he⟩ | ⟨hr, he⟩
  · rw [he, Nat.mul_assoc]; omega
  · rw [he, Nat.mul_assoc, Nat.mul_add, Nat.mul_one]; omega
  · have h2 : n / d % 2 ≤ 1 := by omega
    have h3 : d * (n / d % 2) ≤ d := by simpa using Nat.mul_le_mul_left d h2
    rw [he, Nat.mul_assoc, Nat.mul_add]; omega

theorem le_divNearest {d : Nat} (n : Nat) (hd : 0 < d) : 2 * n ≤ 2 * d * divNearest n d + d := by
  have h := Nat.div_add_mod n d
  have hm := Nat.mod_lt n hd
  rcases divNearest_cases n d with ⟨hr, he⟩ | ⟨hr, he⟩ | ⟨hr, he⟩
  · rw [he, Nat.mul_assoc]; omega
  · rw [he, Nat.mul_assoc, Nat.mul_add, Nat.mul_one]; omega
  · rw [he, Nat.mul_assoc, Nat.mul_add]; omega

/-- Halfway between two integers the even one is taken. -/
theorem divNearest_even_of_tie {n d : Nat} (h : 2 * (n % d) = d) : divNearest n d % 2 = 0 := by
  rcases divNearest_cases n d with ⟨hr, _⟩ | ⟨hr, _⟩ | ⟨_, he⟩
  · omega
  · omega
  · omega

end ManualPages.Number
