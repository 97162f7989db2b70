import Calculator.Decimal.Shortest

namespace Calculator

/-- A number as it is written: a sign and a decimal, or one of the words for what is not finite. -/
inductive Numeral
  | finite (negative : Bool) (magnitude : Decimal)
  | infinite (negative : Bool)
  | nan
deriving DecidableEq, Repr

namespace Numeral

open Binary64

def toFloat : Numeral → Float
  | finite negative magnitude => ofRank negative magnitude.rank
  | infinite negative => ofRank negative infinityRank
  | nan => ofRank false (infinityRank + 1)

def ofFloat (v : Float) : Numeral :=
  if rank v < infinityRank then finite (isNegative v) (Decimal.shortest (rank v))
  else if rank v = infinityRank then infinite (isNegative v)
  else nan

end Numeral

end Calculator
