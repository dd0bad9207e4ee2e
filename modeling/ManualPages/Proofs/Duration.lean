import ManualPages.Duration
import ManualPages.Proofs.Number.Binary64
import ManualPages.Proofs.Number.Decimal

/-! # Durations in order

A duration is rounded three times before it is shown: to a binary fraction, as a quotient by its
unit, and to hundredths of the unit.

* None of the roundings turns the order round, so within a unit more nanoseconds never show as less
  (`hundredths_le`).  A multiple of the unit is shown as it is (`hundredths_mul`); so below the next
  unit no more is shown than that unit, and from there on no less
  (`hundredths_mul_nanoseconds_le`).
* The text of a count below a thousand is that count (`text_of_lt`); of a larger one it is the number
  with two places without the zeros at its end, and the unit (`text_of_le`).
* `shown?` reads the quantity from the text; `shown_ordered` has the order of what is read. -/

namespace ManualPages

open Number

attribute [local instance (2000)] instPowNat

namespace TimeUnit

theorem nanoseconds_pos (unit : TimeUnit) : 0 < unit.nanoseconds := by
  cases unit <;> decide

theorem nanoseconds_lt (unit : TimeUnit) : unit.nanoseconds < 2 ^ (53 : ℕ) := by
  cases unit <;> decide

/-- Two durations have the same unit, or the unit of the longer one lies between them. -/
theorem ofNanoseconds_cases {n m : ℕ} (h : n ≤ m) : ofNanoseconds n = ofNanoseconds m ∨
    (ofNanoseconds n).nanoseconds ∣ (ofNanoseconds m).nanoseconds ∧
      n ≤ (ofNanoseconds m).nanoseconds ∧ (ofNanoseconds m).nanoseconds ≤ m := by
  unfold ofNanoseconds
  split_ifs <;> simp only [nanoseconds, true_or] <;> omega

end TimeUnit

namespace Duration

/-! ### What is shown, in hundredths of the unit -/

theorem significand_unit_ne (unit : TimeUnit) :
    (Binary64.ofNat unit.nanoseconds).significand ≠ 0 := by
  rw [Ne, ← Binary64.value_eq_zero_iff, Binary64.value_ofNat unit.nanoseconds_lt]
  exact_mod_cast unit.nanoseconds_pos.ne'

theorem hundredths_le (unit : TimeUnit) {n m : ℕ} (h : n ≤ m) :
    hundredths unit n ≤ hundredths unit m := by
  have quotients := Binary64.value_div_le (Binary64.canonical_ofNat n) (Binary64.canonical_ofNat m)
    (Binary64.value_ofNat_le h) (significand_unit_ne unit)
  exact Binary64.roundAt_le (Binary64.canonical_div _ (significand_unit_ne unit))
    (Binary64.canonical_div _ (significand_unit_ne unit)) quotients (by decide)

/-- Whole multiples of a unit are shown as they are. -/
theorem hundredths_mul (unit : TimeUnit) {k : ℕ} (h : k * unit.nanoseconds < 2 ^ (53 : ℕ)) :
    hundredths unit (k * unit.nanoseconds) = 100 * k := by
  have pos : (unit.nanoseconds : ℚ) ≠ 0 := mod_cast unit.nanoseconds_pos.ne'
  have small : k < 2 ^ (53 : ℕ) :=
    lt_of_le_of_lt (Nat.le_mul_of_pos_right k unit.nanoseconds_pos) h
  have quotient := Binary64.isRounded_div (Binary64.ofNat (k * unit.nanoseconds))
    (significand_unit_ne unit)
  rw [Binary64.value_ofNat h, Binary64.value_ofNat unit.nanoseconds_lt, Nat.cast_mul,
    mul_div_cancel_right₀ _ pos] at quotient
  have rounded := Binary64.isRounded_roundAt 100
    ((Binary64.ofNat (k * unit.nanoseconds)).div (Binary64.ofNat unit.nanoseconds))
  rw [quotient.eq_of_mem (Binary64.natCast_mem_format small), ← Nat.cast_mul] at rounded
  have whole := rounded.eq_of_mem (natCast_mem_wholes _)
  rw [hundredths, Nat.cast_inj.mp whole, mul_comm]

theorem hundredths_mul_nanoseconds_le {n m : ℕ} (h : n ≤ m) :
    hundredths (.ofNanoseconds n) n * (TimeUnit.ofNanoseconds n).nanoseconds ≤
      hundredths (.ofNanoseconds m) m * (TimeUnit.ofNanoseconds m).nanoseconds := by
  rcases TimeUnit.ofNanoseconds_cases h with same | ⟨⟨k, multiple⟩, below, above⟩
  · rw [same]
    exact Nat.mul_le_mul_right _ (hundredths_le _ h)
  · set u := TimeUnit.ofNanoseconds n
    set w := TimeUnit.ofNanoseconds m
    have upper : hundredths u n ≤ 100 * k := by
      have small := w.nanoseconds_lt
      rw [multiple, mul_comm] at small below
      exact (hundredths_le u below).trans (hundredths_mul u small).le
    have lower : 100 * 1 ≤ hundredths w m := by
      have one := hundredths_mul w (k := 1) (by simpa using w.nanoseconds_lt)
      rw [one_mul] at one
      exact one.ge.trans (hundredths_le w above)
    calc hundredths u n * u.nanoseconds ≤ 100 * k * u.nanoseconds := Nat.mul_le_mul_right _ upper
      _ = 100 * 1 * w.nanoseconds := by rw [multiple]; ring
      _ ≤ hundredths w m * w.nanoseconds := Nat.mul_le_mul_right _ lower

/-! ### The number with its places -/

theorem isDigits_places (h : ℕ) :
    IsDigits [Nat.digitChar (h / 10 % 10), Nat.digitChar (h % 10)] := by
  have tenth : h / 10 % 10 < 10 := Nat.mod_lt _ (by decide)
  have last : h % 10 < 10 := Nat.mod_lt _ (by decide)
  simp [IsDigits, tenth, last]

theorem decimal?_twoPlaces (h : ℕ) : decimal? (twoPlaces h) = some (h / 100 : ℚ) := by
  have tenth : h / 10 % 10 < 10 := Nat.mod_lt _ (by decide)
  have last : h % 10 < 10 := Nat.mod_lt _ (by decide)
  have parts : h = 100 * (h / 100) + (10 * (h / 10 % 10) + h % 10) := by omega
  rw [twoPlaces, decimal?_point (isDigits_toDigits _) (isDigits_places h),
    Nat.ofDigitChars_ten_toDigits, Nat.ofDigitChars_cons_digitChar_of_lt_ten tenth,
    Nat.ofDigitChars_cons_digitChar_of_lt_ten last]
  conv_rhs => rw [parts]
  push_cast
  norm_num
  ring

theorem tidies_twoPlaces (h : ℕ) : Tidies (twoPlaces h) (stripZeros (twoPlaces h)) :=
  tidies_stripZeros (isDigits_toDigits (h / 100)) (isDigits_places h)

theorem isNumeric_of_isDigits {s : List Char} (h : IsDigits s) : ∀ c ∈ s, isNumeric c := by
  intro c mem
  rw [isNumeric, h.2 c mem, Bool.true_or]

theorem isNumeric_of_mem_twoPlaces {h : ℕ} : ∀ c ∈ twoPlaces h, isNumeric c := by
  intro c mem
  rw [twoPlaces, List.mem_append, List.mem_cons] at mem
  rcases mem with digit | rfl | digit
  · exact isNumeric_of_isDigits (isDigits_toDigits _) c digit
  · decide
  · exact isNumeric_of_isDigits (isDigits_places h) c digit

theorem isNumeric_of_mem_stripZeros {s : List Char} (h : ∀ c ∈ s, isNumeric c) :
    ∀ c ∈ stripZeros s, isNumeric c := fun c mem =>
  h c (((List.rdropWhile_prefix _ _).trans (List.rdropWhile_prefix _ _)).subset mem)

/-! ### The text -/

theorem span_symbol {number : List Char} (h : ∀ c ∈ number, isNumeric c) (unit : TimeUnit) :
    (number ++ unit.symbol.toList).takeWhile isNumeric = number ∧
      (number ++ unit.symbol.toList).dropWhile isNumeric = unit.symbol.toList := by
  have front : unit.symbol.toList.takeWhile isNumeric = [] := by cases unit <;> decide
  have behind : unit.symbol.toList.dropWhile isNumeric = unit.symbol.toList := by
    cases unit <;> decide
  rw [List.takeWhile_append_of_pos h, front, List.append_nil, List.dropWhile_append_of_pos h,
    behind]
  exact ⟨rfl, rfl⟩

theorem text_of_lt {n : ℕ} (h : n < 1000) : text n = toString n ++ "ns" := by
  have unit : TimeUnit.ofNanoseconds n = .nanosecond := if_pos h
  rw [text, unit]
  rfl

theorem text_of_le {n : ℕ} (h : 1000 ≤ n) : text n =
    String.ofList (stripZeros (twoPlaces (hundredths (.ofNanoseconds n) n))) ++
      (TimeUnit.ofNanoseconds n).symbol := by
  have unit : TimeUnit.ofNanoseconds n ≠ .nanosecond := by
    rw [TimeUnit.ofNanoseconds, if_neg (by omega)]
    split_ifs <;> decide
  obtain ⟨number, symbol⟩ := span_symbol isNumeric_of_mem_twoPlaces (.ofNanoseconds n)
  rw [text, if_neg unit]
  dsimp only
  rw [number, symbol, String.ofList_append, String.ofList_toList]

/-! ### Reading the text -/

/-- The unit with that symbol. -/
def unit? (symbol : List Char) : Option TimeUnit :=
  [.nanosecond, .microsecond, .millisecond, .second].find? fun (unit : TimeUnit) =>
    unit.symbol.toList == symbol

/-- The nanoseconds that a text shows: a number, and a unit behind it. -/
def shown? (s : String) : Option ℚ :=
  match decimal? (s.toList.takeWhile isNumeric), unit? (s.toList.dropWhile isNumeric) with
  | some q, some unit => some (q * unit.nanoseconds)
  | _, _ => none

theorem unit?_symbol (unit : TimeUnit) : unit? unit.symbol.toList = some unit := by
  cases unit <;> decide

theorem shown?_append {number : List Char} (h : ∀ c ∈ number, isNumeric c) (unit : TimeUnit) :
    shown? (String.ofList number ++ unit.symbol) =
      (decimal? number).map (· * (unit.nanoseconds : ℚ)) := by
  obtain ⟨front, behind⟩ := span_symbol h unit
  rw [shown?, String.toList_append, String.toList_ofList, front, behind, unit?_symbol]
  cases decimal? number <;> rfl

theorem shown?_text_of_lt {n : ℕ} (h : n < 1000) : shown? (text n) = some (n : ℚ) := by
  have read := shown?_append (isNumeric_of_isDigits (isDigits_toDigits n)) .nanosecond
  rw [← Nat.toString_eq_ofList_toDigits, decimal?_digits (isDigits_toDigits n),
    Nat.ofDigitChars_ten_toDigits] at read
  rw [text_of_lt h]
  exact read.trans (by simp [TimeUnit.nanoseconds])

theorem shown?_text (n : ℕ) : shown? (text n) =
    some (hundredths (.ofNanoseconds n) n / 100 * (TimeUnit.ofNanoseconds n).nanoseconds : ℚ) := by
  rcases lt_or_ge n 1000 with small | large
  · have unit : TimeUnit.ofNanoseconds n = .nanosecond := if_pos small
    have count : hundredths .nanosecond n = 100 * n := by
      simpa [TimeUnit.nanoseconds] using hundredths_mul .nanosecond (k := n)
        (by simp [TimeUnit.nanoseconds]; omega)
    rw [shown?_text_of_lt small, unit, count]
    simp [TimeUnit.nanoseconds]
  · have number := isNumeric_of_mem_stripZeros
      (isNumeric_of_mem_twoPlaces (h := hundredths (.ofNanoseconds n) n))
    rw [text_of_le large, shown?_append number, (tidies_twoPlaces _).same, decimal?_twoPlaces]
    rfl

/-! ### Order -/

/-- The hundredths `h` of a unit come from `n` nanoseconds by three roundings; for a duration of
less than `2 ^ 64` seconds, they stay within the 64-bit format. -/
def RoundsTo (unit : TimeUnit) (n h : ℕ) : Prop :=
  ∃ a b : Binary64, IsRounded Binary64.format (Even a.significand) n a.value ∧
    IsRounded Binary64.format (Even b.significand) (a.value / unit.nanoseconds) b.value ∧
    IsRounded wholes (Even h) (b.value * 100) h ∧
    (n < 2 ^ (64 : ℕ) * 10 ^ (9 : ℕ) → a.isFinite ∧ b.isFinite)

/-- The text of `n` nanoseconds shows `q` nanoseconds: a count below a thousand as it is, and what
a larger one is rounded to with the places that it needs. -/
structure Shows (n : ℕ) (q : ℚ) : Prop where
  read : shown? (text n) = some q
  exact : n < 1000 → q = n ∧ text n = toString n ++ "ns"
  rounded : 1000 ≤ n → ∃ unit h, unit = TimeUnit.ofNanoseconds n ∧ RoundsTo unit n h ∧
    q = h / 100 * unit.nanoseconds ∧ decimal? (twoPlaces h) = some (h / 100 : ℚ) ∧
    Tidies (twoPlaces h) (stripZeros (twoPlaces h)) ∧
    text n = String.ofList (stripZeros (twoPlaces h)) ++ unit.symbol

theorem roundsTo (unit : TimeUnit) (n : ℕ) : RoundsTo unit n (hundredths unit n) := by
  have ne := significand_unit_ne unit
  have quotient := Binary64.isRounded_div (Binary64.ofNat n) ne
  rw [Binary64.value_ofNat unit.nanoseconds_lt] at quotient
  refine ⟨_, _, Binary64.isRounded_ofNat n, quotient, Binary64.isRounded_roundAt 100 _, ?_⟩
  intro bound
  have count := Binary64.value_ofNat_le bound.le
  have fractions := Binary64.value_div_le (Binary64.canonical_ofNat _) (Binary64.canonical_ofNat _)
    count ne
  constructor
  · exact (Binary64.canonical_ofNat _).isFinite_of_le (Binary64.canonical_ofNat _) count
      (by decide +kernel)
  · refine (Binary64.canonical_div _ ne).isFinite_of_le (Binary64.canonical_div _ ne) fractions ?_
    cases unit <;> decide +kernel

theorem exists_shows (n : ℕ) :
    Shows n (hundredths (.ofNanoseconds n) n / 100 * (TimeUnit.ofNanoseconds n).nanoseconds) := by
  refine ⟨shown?_text n, fun small => ⟨?_, text_of_lt small⟩, fun large => ?_⟩
  · exact Option.some.inj ((shown?_text n).symm.trans (shown?_text_of_lt small))
  · exact ⟨_, _, rfl, roundsTo _ n, rfl, decimal?_twoPlaces _, tidies_twoPlaces _, text_of_le large⟩

/-- A longer duration is never shown as less. -/
theorem shown_ordered {n m : ℕ} (h : n ≤ m) : ∃ p q, Shows n p ∧ Shows m q ∧ p ≤ q := by
  refine ⟨_, _, exists_shows n, exists_shows m, ?_⟩
  have order := hundredths_mul_nanoseconds_le h
  rw [div_mul_eq_mul_div, div_mul_eq_mul_div, div_le_div_iff_of_pos_right (by norm_num)]
  exact_mod_cast order

theorem shown_ordered_thousand : text 999999 = "1000µs" ∧ text 1000000 = "1ms" ∧
    ∃ p q, Shows 999999 p ∧ Shows 1000000 q ∧ p ≤ q :=
  ⟨by decide +kernel, by decide +kernel, shown_ordered (by decide)⟩

end Duration

end ManualPages
