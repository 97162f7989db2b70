import Calculator.Decimal.Basic

namespace Calculator.Decimal

open Binary64

/-- The exponent of a power of ten that is at least `u` units, and at most ten times as large. -/
def ceiling (u : Nat) : Int :=
  if one ≤ u then (Nat.toDigits 10 (u / one)).length
  else 1 - (Nat.toDigits 10 (one / u)).length

/-- The nearer of the two neighbours of rank `n` on the grid of `10 ^ e` among those that round to it. No other number
on the grid matters, since what rounds to a rank is an interval. Halfway between the two the greater one is taken. -/
def onGrid? (n : Nat) (e : Int) : Option Decimal :=
  let num := units n * Nat.pow 10 (-e).toNat
  let den := one * Nat.pow 10 e.toNat
  let lower : Decimal := ⟨num / den, e⟩
  let upper : Decimal := ⟨num / den + 1, e⟩
  if lower.rank = n then
    if upper.rank = n ∧ den ≤ 2 * (num % den) then some upper else some lower
  else if upper.rank = n then some upper
  else none

/-- Searches the grids from `10 ^ (g - 1074)` down. Every magnitude lies on the last one. -/
def searchFrom (n : Nat) : Nat → Decimal
  | 0 => ⟨units n * Nat.pow 5 1074, -1074⟩
  | g + 1 => (onGrid? n (g + 1 - 1074)).getD (searchFrom n g)

/-- Of the decimals that round to rank `n` one with the fewest digits, and of those the nearest. -/
def shortest (n : Nat) : Decimal :=
  if n = 0 then ⟨0, 0⟩ else searchFrom n (ceiling (units n) + 1074).toNat

end Calculator.Decimal
