import ManualPages.Number.Binary64

/-! # Durations for readers

A duration of `n` nanoseconds is shown in the largest of the units ns, µs, ms and s that it
reaches: nanoseconds as they are, other units with at most two decimal places.  For these the count
becomes a 53-bit binary fraction, is divided by the unit, and the quotient is rounded to hundredths,
ties to even; zeros at the end of the places are left out. -/

namespace ManualPages

/-- The units of time and the nanoseconds in each. -/
inductive TimeUnit where
  | nanosecond
  | microsecond
  | millisecond
  | second
deriving DecidableEq, Repr

namespace TimeUnit

def nanoseconds : TimeUnit → Nat
  | nanosecond => 1
  | microsecond => 1000
  | millisecond => 1000000
  | second => 1000000000

def symbol : TimeUnit → String
  | nanosecond => "ns"
  | microsecond => "µs"
  | millisecond => "ms"
  | second => "s"

/-- The largest unit that a number of nanoseconds reaches. -/
def ofNanoseconds (n : Nat) : TimeUnit :=
  if n < 1000 then nanosecond
  else if n < 1000000 then microsecond
  else if n < 1000000000 then millisecond
  else second

end TimeUnit

namespace Duration

/-- The hundredths of `unit` in `n` nanoseconds. -/
def hundredths (unit : TimeUnit) (n : Nat) : Nat :=
  ((Number.Binary64.ofNat n).div (Number.Binary64.ofNat unit.nanoseconds)).roundAt 100

/-- A number of hundredths with two places. -/
def twoPlaces (h : Nat) : List Char :=
  Nat.toDigits 10 (h / 100) ++ '.' :: [Nat.digitChar (h / 10 % 10), Nat.digitChar (h % 10)]

/-- A text without the characters `c` at its end. -/
def stripEnd (c : Char) (s : List Char) : List Char := (s.reverse.dropWhile (· == c)).reverse

/-- A text without the zeros at its end, and then without the points there. -/
def stripZeros (s : List Char) : List Char := stripEnd '.' (stripEnd '0' s)

/-- The characters of a number with places. -/
def isNumeric (c : Char) : Bool := c.isDigit || c == '.'

/-- The text of a duration given in nanoseconds. -/
def text (nanoseconds : Nat) : String :=
  let unit := TimeUnit.ofNanoseconds nanoseconds
  if unit = .nanosecond then toString nanoseconds ++ unit.symbol
  else
    let formatted := twoPlaces (hundredths unit nanoseconds) ++ unit.symbol.toList
    -- the unit is cut off first, so that only the number loses zeros
    String.ofList (stripZeros (formatted.takeWhile isNumeric) ++ formatted.dropWhile isNumeric)

end Duration

end ManualPages
