import Calculator.Event

namespace Calculator

/-- A token in a sequence whose literals have been read. -/
inductive Term
  | value (v : Float)
  | operator (op : Operator)
  | foreign
deriving DecidableEq, Repr

namespace Term

def ofToken : Token → Except EvalError Term
  | .operand x => x.read.map value
  | .operator op => .ok (operator op)
  | .opening | .closing | .blank => .ok foreign

def ofTokens : List Token → Except EvalError (List Term)
  | [] => .ok []
  | t :: ts => do
      let x ← ofToken t
      let xs ← ofTokens ts
      return x :: xs

def value? : Term → Option Float
  | value v => some v
  | _ => none

def first : List Term → Except EvalError Float
  | [] => .error .emptyExpression
  | t :: _ =>
      match t.value? with
      | some v => .ok v
      | none => .error (.expectedOperand 0)

theorem value?_eq_some {t : Term} {v : Float} : t.value? = some v ↔ t = value v := by
  cases t <;> simp [value?]

end Term

/-- A pass under way. What lies behind is kept in reverse; `ahead` starts with the left neighbour of the
operator to be looked at next. A term is examined only when an operator of the level reaches for it. -/
structure Pass where
  behind : List Term
  ahead : List Term
deriving DecidableEq, Repr

namespace Pass

inductive Step
  | finished
  | failed (error : EvalError)
  | skipped (next : Pass)
  | combined (c : Combination) (next : Pass)
deriving DecidableEq, Repr

def start (terms : List Term) : Pass := ⟨[], terms⟩

def terms (p : Pass) : List Term := p.behind.reverse ++ p.ahead

def index (p : Pass) : Nat := p.behind.length + 1

/-- What the operator at `index` makes of its neighbours. The left one is examined first. -/
def combination (op : Operator) (index : Nat) (left : Term) (right : Option Term) :
    Except EvalError Combination :=
  match left.value? with
  | none => .error (.expectedOperand (index - 1))
  | some x =>
      match right.bind Term.value? with
      | none => .error (.expectedOperand (index + 1))
      | some y => (op.apply x y).map fun v => ⟨x, op, y, v⟩

theorem combination_eq_ok {op : Operator} {index : Nat} {left : Term} {right : Option Term}
    {c : Combination} (h : combination op index left right = .ok c) :
    left = .value c.left ∧ op = c.operator ∧ right = some (.value c.right) ∧
      op.apply c.left c.right = .ok c.value := by
  unfold combination at h
  split at h
  · cases h
  · next x hx =>
      split at h
      · cases h
      · next y hy =>
          obtain ⟨t, rfl, ht⟩ := Option.bind_eq_some_iff.mp hy
          cases ha : op.apply x y with
          | error e =>
              rw [ha] at h
              cases h
          | ok v =>
              rw [ha] at h
              cases h
              exact ⟨Term.value?_eq_some.mp hx, rfl, congrArg some (Term.value?_eq_some.mp ht), ha⟩

def step (level : Precedence) (p : Pass) : Step :=
  match p.ahead with
  | left :: .operator op :: rest =>
      if op.precedence = level then
        match combination op p.index left rest.head? with
        | .ok c => .combined c ⟨p.behind, .value c.value :: rest.tail⟩
        | .error error => .failed error
      else .skipped ⟨.operator op :: left :: p.behind, rest⟩
  | _ :: _ :: _ => .failed (.expectedOperator p.index)
  | _ => .finished

theorem step_skipped {level : Precedence} {p q : Pass} (h : p.step level = .skipped q) :
    q.ahead.length + 2 = p.ahead.length := by
  unfold step at h
  split at h
  · next hp =>
      split at h
      · split at h <;> simp at h
      · cases h
        simp [hp]
  · cases h
  · cases h

theorem step_combined {level : Precedence} {p q : Pass} {c : Combination}
    (h : p.step level = .combined c q) : q.ahead.length + 2 = p.ahead.length := by
  unfold step at h
  split at h
  · next left op rest hp =>
      split at h
      · split at h
        · next hc =>
            cases h
            obtain ⟨-, -, hr, -⟩ := combination_eq_ok hc
            cases rest with
            | nil => cases hr
            | cons right rest => simp [hp]
        · cases h
      · cases h
  · cases h
  · cases h

def run (level : Precedence) (p : Pass) : Traced (List Term) :=
  match _h : p.step level with
  | .finished => pure p.terms
  | .failed error => Traced.ofExcept (.error error)
  | .skipped q => run level q
  | .combined c q => do
      Traced.emit (.combined c)
      run level q
termination_by p.ahead.length
decreasing_by
  · have := step_skipped _h
    omega
  · have := step_combined _h
    omega

theorem run_finished {level : Precedence} {p : Pass} (h : p.step level = .finished) :
    p.run level = pure p.terms := by
  rw [run]
  split <;> simp_all

theorem run_failed {level : Precedence} {p : Pass} {error : EvalError} (h : p.step level = .failed error) :
    p.run level = Traced.ofExcept (.error error) := by
  rw [run]
  split <;> simp_all

theorem run_skipped {level : Precedence} {p q : Pass} (h : p.step level = .skipped q) :
    p.run level = q.run level := by
  rw [run]
  split <;> simp_all

theorem run_combined {level : Precedence} {p q : Pass} {c : Combination}
    (h : p.step level = .combined c q) :
    p.run level = Traced.emit (.combined c) >>= fun _ => q.run level := by
  rw [run]
  split <;> simp_all

end Pass

end Calculator
