import Calculator.Proofs.Zero
import Calculator.Operator
import Mathlib.Control.Monad.Basic

namespace Calculator

namespace Outcome

variable {ε α β : Type}

theorem bind_eq_ok {x : Except ε α} {f : α → Except ε β} {b : β} :
    x >>= f = .ok b ↔ ∃ a, x = .ok a ∧ f a = .ok b := by
  cases x with
  | error e => simp [Bind.bind, Except.bind]
  | ok a => simp [Bind.bind, Except.bind]

theorem bind_eq_error {x : Except ε α} {f : α → Except ε β} {e : ε} :
    x >>= f = .error e ↔ x = .error e ∨ ∃ a, x = .ok a ∧ f a = .error e := by
  cases x with
  | error e => simp [Bind.bind, Except.bind]
  | ok a => simp [Bind.bind, Except.bind]

/-- A value that only a division by zero keeps from being there. -/
def orDivisionByZero : Option α → Except EvalError α
  | some a => .ok a
  | none => .error .divisionByZero

theorem orDivisionByZero_eq_ok {x : Option α} {a : α} : orDivisionByZero x = .ok a ↔ x = some a := by
  cases x <;> simp [orDivisionByZero]

end Outcome

namespace Operator

open Outcome

def value? (op : Operator) (left right : Float) : Option Float :=
  match op with
  | add => some (left + right)
  | subtract => some (left - right)
  | multiply => some (left * right)
  | divide => if right = 0.0 ∨ right = -0.0 then none else some (left / right)

theorem apply_eq_value? (op : Operator) (left right : Float) :
    op.apply left right = orDivisionByZero (op.value? left right) := by
  cases op with
  | add | subtract | multiply => rfl
  | divide =>
      by_cases h : right = 0.0 ∨ right = -0.0
      · rw [apply, if_pos ((Binary64.beq_zero_iff right).mpr h), value?, if_pos h]
        rfl
      · rw [apply, if_neg (fun hz => h ((Binary64.beq_zero_iff right).mp hz)), value?, if_neg h]
        rfl

end Operator

end Calculator
