import Calculator.Proofs.Chain
import Calculator.Proofs.Terms

namespace Calculator

namespace EvalError

def Sequential : EvalError → Prop
  | invalidCharacter .. | unbalancedParentheses => False
  | emptyExpression | expectedOperand _ | expectedOperator _ | invalidNumber _ | divisionByZero => True

end EvalError

namespace Operand

theorem sequential_of_read {x : Operand} {e : EvalError} (h : x.read = .error e) : e.Sequential := by
  cases x with
  | value v => cases h
  | literal text =>
      rw [read] at h
      cases hv : Numeral.read? text with
      | none =>
          rw [hv] at h
          cases h
          trivial
      | some v =>
          rw [hv] at h
          cases h

/-- The same number once it has been read, if it can be. -/
def computed (x : Operand) : Operand :=
  match x.read with
  | .ok v => value v
  | .error _ => x

theorem computed_of_read {x : Operand} {v : Float} (h : x.read = .ok v) : x.computed = value v := by
  rw [computed, h]

theorem read_computed (x : Operand) : x.computed.read = x.read := by
  cases h : x.read with
  | ok v =>
      rw [computed_of_read h]
      rfl
  | error e =>
      rw [computed, h]
      exact h

end Operand

def Token.computed : Token → Token
  | operand x => operand x.computed
  | t => t

namespace Term

theorem ofToken_computed (t : Token) : ofToken t.computed = ofToken t := by
  cases t with
  | operand x =>
      change x.computed.read.map value = x.read.map value
      rw [x.read_computed]
  | operator | opening | closing | blank => rfl

theorem ofTokens_computed (ts : List Token) : ofTokens (ts.map Token.computed) = ofTokens ts := by
  induction ts with
  | nil => rfl
  | cons t ts ih => rw [List.map_cons, ofTokens, ofTokens, ofToken_computed, ih]

theorem sequential_of_ofTokens {ts : List Token} {e : EvalError} (h : ofTokens ts = .error e) : e.Sequential := by
  induction ts with
  | nil => cases h
  | cons t ts ih =>
      rcases Outcome.bind_eq_error.mp h with ht | ⟨x, -, h⟩
      · cases t with
        | operand x =>
            cases hx : x.read with
            | ok v =>
                rw [ofToken, hx] at ht
                cases ht
            | error e' =>
                rw [ofToken, hx] at ht
                cases ht
                exact x.sequential_of_read hx
        | operator | opening | closing | blank => cases ht
      · rcases Outcome.bind_eq_error.mp h with h | ⟨xs, -, h⟩
        · exact ih h
        · cases h

theorem sequential_of_first {ts : List Term} {e : EvalError} (h : first ts = .error e) : e.Sequential := by
  cases ts with
  | nil =>
      cases h
      trivial
  | cons t ts =>
      rw [first] at h
      cases hv : t.value? with
      | none =>
          rw [hv] at h
          cases h
          trivial
      | some v =>
          rw [hv] at h
          cases h

end Term

theorem Operator.sequential_of_apply {op : Operator} {left right : Float} {e : EvalError}
    (h : op.apply left right = .error e) : e.Sequential := by
  rw [op.apply_eq_value?] at h
  cases hv : op.value? left right with
  | none =>
      rw [hv] at h
      cases h
      trivial
  | some v =>
      rw [hv] at h
      cases h

namespace Pass

theorem sequential_of_combination {op : Operator} {index : Nat} {left : Term} {right : Option Term} {e : EvalError}
    (h : combination op index left right = .error e) : e.Sequential := by
  unfold combination at h
  split at h
  · cases h
    trivial
  · next x _ =>
      split at h
      · cases h
        trivial
      · next y _ =>
          cases ha : op.apply x y with
          | ok v =>
              rw [ha] at h
              cases h
          | error e' =>
              rw [ha] at h
              cases h
              exact op.sequential_of_apply ha

theorem sequential_of_step {level : Precedence} {p : Pass} {e : EvalError} (h : p.step level = .failed e) :
    e.Sequential := by
  unfold step at h
  split at h
  · split at h
    · split at h
      · cases h
      · next hc =>
          cases h
          exact sequential_of_combination hc
    · cases h
  · cases h
    trivial
  · cases h

theorem sequential_of_run {level : Precedence} {p : Pass} {e : EvalError} (h : (p.run level).outcome = .error e) :
    e.Sequential := by
  fun_induction run level p with
  | case1 p hs => cases h
  | case2 p error hs =>
      cases h
      exact sequential_of_step hs
  | case3 p q hs ih => exact ih h
  | case4 p c q hs ih => exact ih h

end Pass

theorem reduce_computed (ts : List Token) : reduce (ts.map Token.computed) = reduce ts := by
  rw [reduce, Term.ofTokens_computed]
  rfl

theorem sequential_of_reduce {ts : List Token} {e : EvalError} (h : (reduce ts).outcome = .error e) :
    e.Sequential := by
  rw [reduce_outcome] at h
  rcases Outcome.bind_eq_error.mp h with h | ⟨terms, -, h⟩
  · exact Term.sequential_of_ofTokens h
  rcases Outcome.bind_eq_error.mp h with h | ⟨v, -, h⟩
  · exact Term.sequential_of_first h
  rcases Outcome.bind_eq_error.mp h with h | ⟨products, -, h⟩
  · exact Pass.sequential_of_run h
  rcases Outcome.bind_eq_error.mp h with h | ⟨sums, -, h⟩
  · exact Pass.sequential_of_run h
  · exact Term.sequential_of_first h

end Calculator
