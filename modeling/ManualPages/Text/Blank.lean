/-! # Blank characters

`isBlank` is the Unicode property White_Space (25 characters), and `trim` removes blanks from both
ends of a text.  A trimmed text neither begins nor ends with a blank (`head?_trim`,
`getLast?_trim`), and trimming twice changes nothing more (`trim_trim`). -/

namespace ManualPages.Text

/-- The Unicode property White_Space. -/
def isBlank (c : Char) : Bool :=
  let n := c.toNat
  (9 ≤ n && n ≤ 13) || n == 0x20 || n == 0x85 || n == 0xA0 || n == 0x1680 ||
    (0x2000 ≤ n && n ≤ 0x200A) || n == 0x2028 || n == 0x2029 || n == 0x202F ||
    n == 0x205F || n == 0x3000

def trimStart (s : List Char) : List Char := s.dropWhile isBlank

def trimEnd (s : List Char) : List Char := (s.reverse.dropWhile isBlank).reverse

/-- Remove the blanks at both ends. -/
def trim (s : List Char) : List Char := trimEnd (trimStart s)

theorem head?_dropWhile {α : Type} (p : α → Bool) (s : List α) :
    ∀ c ∈ (s.dropWhile p).head?, p c = false := by
  induction s with
  | nil => simp
  | cons a s ih =>
    rw [List.dropWhile_cons]
    split
    · exact ih
    · next h => simpa using h

theorem dropWhile_eq_self {α : Type} {p : α → Bool} {s : List α}
    (h : ∀ c ∈ s.head?, p c = false) : s.dropWhile p = s := by
  cases s with
  | nil => rfl
  | cons a s => simp [h a (by simp)]

theorem getLast?_trimEnd (s : List Char) : ∀ c ∈ (trimEnd s).getLast?, isBlank c = false := by
  simpa [trimEnd] using head?_dropWhile isBlank s.reverse

theorem trimEnd_eq_self {s : List Char} (h : ∀ c ∈ s.getLast?, isBlank c = false) :
    trimEnd s = s := by
  rw [trimEnd, dropWhile_eq_self (by simpa using h), List.reverse_reverse]

theorem trimEnd_append_self (s : List Char) : ∃ t, s = trimEnd s ++ t := by
  refine ⟨(s.reverse.takeWhile isBlank).reverse, ?_⟩
  rw [trimEnd, ← List.reverse_append, List.takeWhile_append_dropWhile, List.reverse_reverse]

theorem head?_trim (s : List Char) : ∀ c ∈ (trim s).head?, isBlank c = false := by
  intro c hc
  obtain ⟨t, ht⟩ := trimEnd_append_self (trimStart s)
  refine head?_dropWhile isBlank s c ?_
  change c ∈ (trimStart s).head?
  rw [ht, List.head?_append]
  simp only [trim, Option.mem_def] at hc
  simp [hc]

theorem getLast?_trim (s : List Char) : ∀ c ∈ (trim s).getLast?, isBlank c = false :=
  getLast?_trimEnd _

theorem trim_eq_self {s : List Char} (hh : ∀ c ∈ s.head?, isBlank c = false)
    (hl : ∀ c ∈ s.getLast?, isBlank c = false) : trim s = s := by
  rw [trim, trimStart, dropWhile_eq_self hh, trimEnd_eq_self hl]

theorem trim_trim (s : List Char) : trim (trim s) = trim s :=
  trim_eq_self (head?_trim s) (getLast?_trim s)

end ManualPages.Text
