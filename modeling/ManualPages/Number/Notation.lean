import ManualPages.Number.Shortest

/-! # The text of a binary fraction

A fraction is written with its shortest digits.  From `10 ^ -5` up to, not including, `10 ^ 16` it
stands in positional notation and always shows a point; outside that range it stands in scientific
notation, whose exponent carries its sign. -/

namespace ManualPages.Number

namespace Decimal

/-- The power of ten of the first digit. -/
def leadingExponent (x : Decimal) : Int := (Nat.toDigits 10 x.digits).length - 1 + x.exponent

/-- Positional notation: at least one digit on either side of the point. -/
def positional (x : Decimal) : List Char :=
  let digits := Nat.toDigits 10 x.digits
  let places := (-x.exponent).toNat
  if 0 ≤ x.exponent then digits ++ List.replicate x.exponent.toNat '0' ++ ['.', '0']
  else if places < digits.length then
    digits.take (digits.length - places) ++ '.' :: digits.drop (digits.length - places)
  else ['0', '.'] ++ List.replicate (places - digits.length) '0' ++ digits

/-- Scientific notation: one digit before the point, and no point after a lone digit. -/
def scientific (x : Decimal) : List Char :=
  let digits := Nat.toDigits 10 x.digits
  let e := x.leadingExponent
  let fraction := if digits.tail.isEmpty then [] else '.' :: digits.tail
  digits.take 1 ++ fraction ++ 'e' :: (if e < 0 then '-' else '+') :: Nat.toDigits 10 e.natAbs

end Decimal

/-- The text of a binary fraction with its sign. -/
def Binary64.text (negative : Bool) (a : Binary64) : String :=
  let sign := if negative then ['-'] else []
  if a.isZero then String.ofList (sign ++ ['0', '.', '0'])
  else
    let x := a.shortest
    let plain := -5 ≤ x.leadingExponent && x.leadingExponent < 16
    String.ofList (sign ++ if plain then x.positional else x.scientific)

end ManualPages.Number
