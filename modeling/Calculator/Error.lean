namespace Calculator

inductive EvalError
  /-- A character that belongs to no token, and the number of bytes before it. -/
  | invalidCharacter (character : Char) (position : Nat)
  | unbalancedParentheses
  | emptyExpression
  | expectedOperand (index : Nat)
  | expectedOperator (index : Nat)
  | invalidNumber (literal : String)
  | divisionByZero
deriving DecidableEq, Repr

inductive ErrorClass
  | parse
  | runtime
deriving DecidableEq, Repr

namespace EvalError

def kind : EvalError → ErrorClass
  | divisionByZero => .runtime
  | _ => .parse

def message : EvalError → String
  | invalidCharacter character position => s!"Invalid character '{character}' at position {position}."
  | unbalancedParentheses => "Unbalanced parentheses."
  | emptyExpression => "Empty expression."
  | expectedOperand index => s!"Expected a number at token {index}."
  | expectedOperator index => s!"Expected an operator at token {index}."
  | invalidNumber literal => s!"'{literal}' is not a valid number."
  | divisionByZero => "Division by zero."

/-- A badly formed expression is only rejected; the cause is kept for the log. -/
def userMessage (e : EvalError) : String :=
  match e.kind with
  | .parse => "Invalid input."
  | .runtime => s!"Error: {e.message}"

end EvalError

end Calculator
