import Calculator.Error

namespace Calculator

inductive Precedence
  | multiplicative
  | additive
deriving DecidableEq, Repr

namespace Precedence

def levels : List Precedence := [multiplicative, additive]

def rank : Precedence → Nat
  | multiplicative => 0
  | additive => 1

instance : Ord Precedence := ⟨fun p q => compare p.rank q.rank⟩

end Precedence

inductive Operator
  | add
  | subtract
  | multiply
  | divide
deriving DecidableEq, Repr

namespace Operator

def symbol : Operator → Char
  | add => '+'
  | subtract => '-'
  | multiply => '*'
  | divide => '/'

def ofSymbol? : Char → Option Operator
  | '+' => some add
  | '-' => some subtract
  | '*' => some multiply
  | '/' => some divide
  | _ => none

def precedence : Operator → Precedence
  | add | subtract => .additive
  | multiply | divide => .multiplicative

/-- A zero of either sign divides nothing, not even what is no number. -/
def apply (op : Operator) (left right : Float) : Except EvalError Float :=
  match op with
  | add => .ok (left + right)
  | subtract => .ok (left - right)
  | multiply => .ok (left * right)
  | divide => if right == 0.0 then .error .divisionByZero else .ok (left / right)

theorem symbol_of_ofSymbol? {c : Char} {op : Operator} (h : ofSymbol? c = some op) : op.symbol = c := by
  unfold ofSymbol? at h
  split at h <;> simp_all [symbol] <;> subst h <;> rfl

end Operator

end Calculator
