import Calculator.Numeral.Basic

namespace Calculator.Numeral

def takeSign : List Char → Bool × List Char
  | '-' :: cs => (true, cs)
  | '+' :: cs => (false, cs)
  | cs => (false, cs)

def natural (ds : List Char) : Nat := Nat.ofDigitChars 10 ds 0

def takeFraction : List Char → List Char × List Char
  | '.' :: cs => (cs.takeWhile Char.isDigit, cs.dropWhile Char.isDigit)
  | cs => ([], cs)

/-- The exponent, which has to reach to the end of the text. -/
def exponent? : List Char → Option Int
  | [] => some 0
  | c :: cs =>
      let (negative, ds) := takeSign cs
      if (c = 'e' ∨ c = 'E') ∧ ds ≠ [] ∧ ds.all Char.isDigit then
        some (if negative then -natural ds else natural ds)
      else none

def decimal? (cs : List Char) : Option Decimal :=
  let whole := cs.takeWhile Char.isDigit
  let (fraction, rest) := takeFraction (cs.dropWhile Char.isDigit)
  if whole = [] ∧ fraction = [] then none
  else (exponent? rest).map fun e => ⟨natural (whole ++ fraction), e - fraction.length⟩

/-- A sign is optional. After it stands a word for infinity or for no number, or digits with at most one point and at
least one digit, which an exponent may follow. -/
def ofList? (cs : List Char) : Option Numeral :=
  let (negative, body) := takeSign cs
  let word := String.ofList (body.map Char.toLower)
  if word = "inf" ∨ word = "infinity" then some (infinite negative)
  else if word = "nan" then some nan
  else (decimal? body).map (finite negative)

def read? (text : String) : Option Float := (ofList? text.toList).map toFloat

end Calculator.Numeral
