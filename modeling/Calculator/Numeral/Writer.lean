import Calculator.Numeral.Basic

namespace Calculator

/-- The choices in writing a number that its value leaves open. -/
structure Layout where
  /-- The orders of magnitude that are written without an exponent. -/
  plain : Int → Bool
  pointed : Bool
  nan : String

namespace Layout

def result : Layout where
  plain k := -4 < k && k ≤ 16
  pointed := true
  nan := "nan"

def record : Layout where
  plain _ := true
  pointed := false
  nan := "NaN"

/-- Places the point `k` digits after the start of `ds`. -/
def writePlain (l : Layout) (ds : List Char) (k : Int) : List Char :=
  if k ≤ 0 then '0' :: '.' :: (List.replicate (-k).toNat '0' ++ ds)
  else if ds.length ≤ k.toNat then
    ds ++ List.replicate (k.toNat - ds.length) '0' ++ if l.pointed then ['.', '0'] else []
  else ds.take k.toNat ++ '.' :: ds.drop k.toNat

/-- An exponent has a sign and at least two digits. -/
def writeExponent (e : Int) : List Char :=
  let ds := Nat.toDigits 10 e.natAbs
  'e' :: (if e < 0 then '-' else '+') :: (List.replicate (2 - ds.length) '0' ++ ds)

/-- One digit stands before the point, which is left out when none follows. -/
def writeScientific (ds : List Char) (k : Int) : List Char :=
  (if ds.length ≤ 1 then ds else ds.take 1 ++ '.' :: ds.drop 1) ++ writeExponent (k - 1)

def writeDecimal (l : Layout) (d : Decimal) : List Char :=
  let ds := Nat.toDigits 10 d.digits
  if l.plain d.order then l.writePlain ds d.order else writeScientific ds d.order

def sign (negative : Bool) : List Char := if negative then ['-'] else []

def write (l : Layout) : Numeral → List Char
  | .finite negative magnitude => sign negative ++ l.writeDecimal magnitude
  | .infinite negative => sign negative ++ ['i', 'n', 'f']
  | .nan => l.nan.toList

def format (l : Layout) (v : Float) : String := String.ofList (l.write (.ofFloat v))

end Layout

end Calculator
