import Calculator.Proofs.Chain

namespace Calculator.Grammar

mutual
inductive Factor
  | number (x : Operand)
  | group (e : Sum)

inductive Product
  | one (f : Factor)
  | more (p : Product) (op : Operator) (level : op.precedence = .multiplicative) (f : Factor)

inductive Sum
  | one (p : Product)
  | more (e : Sum) (op : Operator) (level : op.precedence = .additive) (p : Product)
end

mutual
def Factor.tokens : Factor → List Token
  | .number x => [.operand x]
  | .group e => .opening :: (e.tokens ++ [.closing])

def Product.tokens : Product → List Token
  | .one f => f.tokens
  | .more p op _ f => p.tokens ++ .operator op :: f.tokens

def Sum.tokens : Sum → List Token
  | .one p => p.tokens
  | .more e op _ p => e.tokens ++ .operator op :: p.tokens
end

-- There is no value where a number cannot be read or a divisor is a zero.
mutual
def Factor.eval : Factor → Option Float
  | .number x => x.read.toOption
  | .group e => e.eval

def Product.eval : Product → Option Float
  | .one f => f.eval
  | .more p op _ f => p.eval >>= fun v => f.eval >>= op.value? v

def Sum.eval : Sum → Option Float
  | .one p => p.eval
  | .more e op _ p => e.eval >>= fun v => p.eval >>= op.value? v
end

def Factor.chain? (f : Factor) : Option Chain := f.eval.map (⟨·, []⟩)

def Product.chain? : Product → Option Chain
  | .one f => f.chain?
  | .more p op _ f => p.chain? >>= fun c => f.chain?.map (c.join op)

def Sum.chain? : Sum → Option Chain
  | .one p => p.chain?
  | .more e op _ p => e.chain? >>= fun c => p.chain?.map (c.join op)

theorem Factor.chain?_eq_some {f : Factor} {c : Chain} (h : f.chain? = some c) :
    ∃ v, f.eval = some v ∧ c = ⟨v, []⟩ := by
  obtain ⟨v, hv, rfl⟩ := Option.map_eq_some_iff.mp h
  exact ⟨v, hv, rfl⟩

theorem Product.multiplicative_of_chain : (p : Product) → {c : Chain} → p.chain? = some c →
    ∀ x ∈ c.tail, x.1.precedence = .multiplicative
  | .one f, c, h => by
      obtain ⟨v, -, rfl⟩ := f.chain?_eq_some h
      exact List.forall_mem_nil _
  | .more p op level f, c, h => by
      obtain ⟨b, hb, h⟩ := Option.bind_eq_some_iff.mp h
      obtain ⟨d, hd, rfl⟩ := Option.map_eq_some_iff.mp h
      obtain ⟨v, -, rfl⟩ := f.chain?_eq_some hd
      exact List.forall_mem_append.mpr
        ⟨p.multiplicative_of_chain hb, List.forall_mem_singleton.mpr level⟩

theorem Product.eval_eq_fold : (p : Product) → p.eval = p.chain? >>= Chain.fold
  | .one f => by
      rw [eval, chain?, Factor.chain?]
      cases f.eval <;> rfl
  | .more p op level f => by
      rw [eval, chain?, Factor.chain?, p.eval_eq_fold]
      cases p.chain? with
      | none => rfl
      | some c =>
          cases f.eval with
          | none =>
              change (c.fold >>= fun _ => none) = none
              cases c.fold <;> rfl
          | some v => exact (c.fold_join op v).symm

theorem Sum.eval_eq_value : (e : Sum) → e.eval = e.chain? >>= Chain.value
  | .one p => by
      rw [eval, chain?, p.eval_eq_fold]
      cases hc : p.chain? with
      | none => rfl
      | some c => exact (Chain.value_of_multiplicative (p.multiplicative_of_chain hc)).symm
  | .more e op level p => by
      rw [eval, chain?, e.eval_eq_value, p.eval_eq_fold]
      cases e.chain? with
      | none => rfl
      | some c =>
          cases hd : p.chain? with
          | none =>
              change (c.value >>= fun _ => none) = none
              cases c.value <;> rfl
          | some d => exact (Chain.value_join level c (p.multiplicative_of_chain hd)).symm

end Calculator.Grammar
