import Calculator.Binary64.Nearest

namespace Calculator

/-- The number `digits * 10 ^ exponent`. -/
structure Decimal where
  digits : Nat
  exponent : Int
deriving DecidableEq, Repr

namespace Decimal

open Binary64

def numerator (d : Decimal) : Nat := d.digits * Nat.pow 10 d.exponent.toNat

def denominator (d : Decimal) : Nat := Nat.pow 10 (-d.exponent).toNat

/-- The rank of the magnitude nearest to `d`. The first three cases only keep a long exponent from
becoming a long power: `10 ^ 309` lies beyond the finite range, and `10 ^ (-324)` below half of the
least magnitude. -/
def rank (d : Decimal) : Nat :=
  if d.digits = 0 then 0
  else if 308 < d.exponent then infinityRank
  else if d.exponent + d.digits.log2 + 1 ≤ -324 then 0
  else nearestRank (d.numerator * one) d.denominator

/-- The place of the first digit: `10 ^ (order - 1) ≤ d < 10 ^ order` for a positive `d`. -/
def order (d : Decimal) : Int := (Nat.toDigits 10 d.digits).length + d.exponent

end Decimal

end Calculator
