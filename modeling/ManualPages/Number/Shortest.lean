import ManualPages.Number.Binary64

/-! # The shortest decimal of a binary fraction

Among the decimals that round back to a given `Binary64`, `Binary64.shortest` finds the ones with
the fewest digits and, of those, the nearest.  The grids of 1, 2, … 17 digits are tried in turn; if
a point of a grid reads back, so does one of the two grid points next to the value itself, so only
these two are tested. -/

namespace ManualPages.Number

attribute [local instance (2000)] instPowNat

/-- The number `digits * 10 ^ exponent`. -/
structure Decimal where
  digits : Nat
  exponent : Int
deriving DecidableEq, Repr

namespace Binary64

/-- Four times the ends of the interval of numbers that round to `a`, in units of
`2 ^ a.exponent`: half a unit on either side, but a quarter below a power of two, where the
neighbour is nearer. -/
def interval (a : Binary64) : Nat × Nat :=
  let m := 4 * a.significand
  (if a.significand = 2 ^ (52 : Nat) && minExponent < a.exponent then m - 1 else m - 2, m + 2)

/-- Compare `x * 10 ^ k` with `y * 2 ^ e / 4`. -/
def compareScaled (x : Nat) (k : Int) (y : Nat) (e : Int) : Ordering :=
  compare (x * 4 * 10 ^ k.toNat * 2 ^ (-e).toNat) (y * 2 ^ e.toNat * 10 ^ (-k).toNat)

/-- Does the decimal round to `a`?  The ends of the interval do if the significand is even. -/
def reads (a : Binary64) (x : Nat) (k : Int) : Bool :=
  let (low, high) := a.interval
  let even := a.significand % 2 = 0
  let above := match compareScaled x k low a.exponent with
    | .lt => false
    | .eq => even
    | .gt => true
  let below := match compareScaled x k high a.exponent with
    | .lt => true
    | .eq => even
    | .gt => false
  above && below

/-- The value over `10 ^ k` as a fraction. -/
def scaled (a : Binary64) (k : Int) : Nat × Nat :=
  (a.significand * 2 ^ a.exponent.toNat * 10 ^ (-k).toNat,
    2 ^ (-a.exponent).toNat * 10 ^ k.toNat)

/-- The grid point that reads back and is nearest to the value, if any does. -/
def onGrid (a : Binary64) (k : Int) : Option Decimal :=
  let (n, d) := a.scaled k
  let q := n / d
  let near := divNearest n d
  let other := if near = q then q + 1 else q
  if a.reads near k then some ⟨near, k⟩
  else if a.reads other k then some ⟨other, k⟩
  else none

/-- The number of decimal digits before the point, or minus the zeros after it: the `p` with
`10 ^ (p - 1) ≤ value < 10 ^ p`, for a positive value. -/
def magnitude (a : Binary64) : Int :=
  let n := a.significand * 2 ^ a.exponent.toNat
  let d := 2 ^ (-a.exponent).toNat
  if d ≤ n then (Nat.toDigits 10 (n / d)).length
  else
    -- the quotient is below one: count how far the quotient of the inverse reaches
    let inverse := (Nat.toDigits 10 (d / n)).length
    if n * 10 ^ (inverse - 1) = d then 2 - (inverse : Int) else 1 - (inverse : Int)

/-- Remove the zeros at the end of the digits. -/
def stripZeros : (fuel : Nat) → Decimal → Decimal
  | 0, x => x
  | fuel + 1, x =>
    if x.digits % 10 = 0 && x.digits ≠ 0 then stripZeros fuel ⟨x.digits / 10, x.exponent + 1⟩ else x

/-- The shortest decimal that rounds to `a`, and the nearest to it of that length. -/
def shortest (a : Binary64) : Decimal :=
  let p := a.magnitude
  let grids := (List.range 17).map fun (digits : Nat) => p - 1 - (digits : Int)
  match grids.findSome? a.onGrid with
  | some x => stripZeros 20 x
  | none => ⟨0, 0⟩

end Binary64

end ManualPages.Number
