import Calculator.Numeral.Reader
import Calculator.Numeral.Writer
import Calculator.Operator

namespace Calculator

/-- A number that takes part in a calculation: as it was written, or as it was computed. -/
inductive Operand
  | literal (text : String)
  | value (v : Float)
deriving DecidableEq, Repr

namespace Operand

def read : Operand → Except EvalError Float
  | literal text =>
      match Numeral.read? text with
      | some v => .ok v
      | none => .error (.invalidNumber text)
  | value v => .ok v

def display : Operand → String
  | literal text => text
  | value v => Layout.result.format v

/-- Literals agree in their text and values as numbers do: no value agrees with one that is no number,
and the two zeros agree. -/
def same : Operand → Operand → Bool
  | literal s, literal t => s == t
  | value v, value w => v == w
  | _, _ => false

end Operand

inductive Token
  | operand (x : Operand)
  | operator (op : Operator)
  | opening
  | closing
  | blank
deriving DecidableEq, Repr

namespace Token

abbrev literal (text : String) : Token := operand (.literal text)

abbrev value (v : Float) : Token := operand (.value v)

def isParenthesis (t : Token) : Bool := t matches opening | closing

def display : Token → String
  | operand x => x.display
  | operator op => op.symbol.toString
  | opening => "("
  | closing => ")"
  | blank => ""

def same : Token → Token → Bool
  | operand x, operand y => x.same y
  | t, u => t == u

end Token

end Calculator
