import Calculator.Binary64.Rank

namespace Calculator.Binary64

/-- The rank nearest to `num / den` units, and halfway between two ranks the even one. -/
def nearestRank (num den : Nat) : Nat :=
  let n := floorRank (num / den)
  let middle := (units n + units (n + 1)) * den
  min infinityRank (if 2 * num < middle ∨ 2 * num = middle ∧ n % 2 = 0 then n else n + 1)

theorem nearestRank_le (num den : Nat) : nearestRank num den ≤ infinityRank := Nat.min_le_left _ _

end Calculator.Binary64
