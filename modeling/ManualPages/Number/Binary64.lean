import ManualPages.Number.Rounding

/-! # Binary fractions of 53 bits

A `Binary64` is a nonnegative number `significand * 2 ^ exponent` with a significand below `2 ^ 53`
and an exponent of at least `-1074`: the magnitudes of the 64-bit binary format.  Every operation
is the exact one on fractions followed by `ofFraction`, which rounds to the nearest such number and
takes the even significand of two equally near ones.  The exponent is not bounded above;
`isFinite` says whether the format reaches so far. -/

namespace ManualPages.Number

-- Powers of natural numbers are those of the core library, whatever else is imported beside it.
attribute [local instance (2000)] instPowNat

structure Binary64 where
  significand : Nat
  exponent : Int
deriving DecidableEq, Repr

namespace Binary64

/-- The least exponent. -/
def minExponent : Int := -1074

/-- The power of two below which `n / d` has 53 binary digits, if the exponent may be that low. -/
def scaleOf (n d : Nat) : Int :=
  let e : Int := (n.log2 : Int) - d.log2 - 52
  let enough :=
    if 0 ≤ e then d * 2 ^ (e.toNat + 52) ≤ n else d * 2 ^ (52 : Nat) ≤ n * 2 ^ (-e).toNat
  max minExponent (if enough then e else e - 1)

/-- The number nearest to `n / d * 2 ^ shift`. -/
def ofFraction (n d : Nat) (shift : Int) : Binary64 :=
  if n = 0 then ⟨0, minExponent⟩
  else
    let n' := n * 2 ^ shift.toNat
    let d' := d * 2 ^ (-shift).toNat
    let e := scaleOf n' d'
    let m := divNearest (n' * 2 ^ (-e).toNat) (d' * 2 ^ e.toNat)
    if m = 2 ^ (53 : Nat) then ⟨2 ^ (52 : Nat), e + 1⟩ else ⟨m, e⟩

def ofNat (n : Nat) : Binary64 := ofFraction n 1 0

def mul (a b : Binary64) : Binary64 :=
  ofFraction (a.significand * b.significand) 1 (a.exponent + b.exponent)

def div (a b : Binary64) : Binary64 :=
  ofFraction a.significand b.significand (a.exponent - b.exponent)

/-- Is the number one of the 64-bit format's, rather than beyond its largest? -/
def isFinite (a : Binary64) : Bool := a.significand == 0 || a.exponent ≤ 971

def isZero (a : Binary64) : Bool := a.significand == 0

/-- The number in units of `1 / scale`, rounded to the nearest integer. -/
def roundAt (scale : Nat) (a : Binary64) : Nat :=
  divNearest (a.significand * scale * 2 ^ a.exponent.toNat) (2 ^ (-a.exponent).toNat)

end Binary64

end ManualPages.Number
