import Calculator.Proofs.Grammar
import Calculator.Proofs.Nesting
import Calculator.Proofs.Terms

namespace Calculator.Grammar

/-- Reading a part of a sequence comes to the terms of a chain wherever the part stands, or to a division by
zero where there is no chain. -/
def Reads (ts : List Token) : Option Chain → Prop
  | none => ∀ n : Nesting, n.read ts = .error .divisionByZero
  | some c => ∃ us, Term.ofTokens us = .ok c.terms ∧ ∀ n : Nesting, n.read ts = .ok (n.append us)

theorem Reads.join {ts us : List Token} {x y : Option Chain} (h : Reads ts x) (h' : Reads us y) (op : Operator) :
    Reads (ts ++ .operator op :: us) (x >>= fun c => y.map (c.join op)) := by
  cases x with
  | none =>
      intro n
      rw [Nesting.read_append, h n]
      rfl
  | some c =>
      obtain ⟨vs, hvs, hread⟩ := h
      cases y with
      | none =>
          intro n
          rw [Nesting.read_append, hread n]
          exact h' _
      | some d =>
          obtain ⟨ws, hws, hread'⟩ := h'
          refine ⟨vs ++ .operator op :: ws, ?_, fun n => ?_⟩
          · rw [Term.ofTokens_append, hvs, Chain.terms_join, Term.ofTokens, hws]
            rfl
          · rw [Nesting.read_append, hread n]
            change Nesting.read ((n.append vs).append [.operator op]) us = _
            rw [hread', Nesting.append_append, Nesting.append_append]
            rfl

theorem Reads.group {e : Sum} (h : Reads e.tokens e.chain?) :
    Reads (Factor.group e).tokens (Factor.group e).chain? := by
  rw [Factor.tokens, Factor.chain?, Factor.eval, e.eval_eq_value]
  cases hc : e.chain? with
  | none =>
      rw [hc] at h
      intro n
      change Nesting.read ⟨n.base, [] :: n.groups⟩ (e.tokens ++ [.closing]) = _
      rw [Nesting.read_append, h _]
      rfl
  | some c =>
      rw [hc] at h
      obtain ⟨us, hus, hread⟩ := h
      have hgroup (n : Nesting) : n.read (.opening :: (e.tokens ++ [.closing])) =
          (reduce us).outcome.map fun v => n.push (.value v) := by
        change Nesting.read ⟨n.base, [] :: n.groups⟩ (e.tokens ++ [.closing]) = _
        rw [Nesting.read_append, hread _]
        change ((reduce us).outcome.map _ >>= pure) = _
        cases (reduce us).outcome <;> rfl
      rw [reduce_chain hus] at hgroup
      change Reads _ (c.value.map _)
      cases hv : c.value with
      | none =>
          rw [hv] at hgroup
          exact hgroup
      | some v =>
          rw [hv] at hgroup
          exact ⟨[.value v], rfl, hgroup⟩

mutual
theorem Factor.reads : (f : Factor) → Readable f.tokens → Reads f.tokens f.chain?
  | .number x, h => by
      obtain ⟨v, hv⟩ := h x List.mem_cons_self
      rw [Factor.chain?, Factor.eval, hv]
      exact ⟨[.operand x], by rw [Term.ofTokens, Term.ofToken, hv]; rfl, fun n => rfl⟩
  | .group e, h => (e.reads h.tail.left).group

theorem Product.reads : (p : Product) → Readable p.tokens → Reads p.tokens p.chain?
  | .one f, h => f.reads h
  | .more p op _ f, h => (p.reads h.left).join (f.reads h.right.tail) op

theorem Sum.reads : (e : Sum) → Readable e.tokens → Reads e.tokens e.chain?
  | .one p, h => p.reads h
  | .more e op _ p, h => (e.reads h.left).join (p.reads h.right.tail) op
end

theorem Sum.read_finish {e : Sum} (h : Readable e.tokens) :
    (Nesting.start.read e.tokens >>= Nesting.finish) = Outcome.orDivisionByZero e.eval := by
  have hreads := e.reads h
  rw [e.eval_eq_value]
  cases hc : e.chain? with
  | none =>
      rw [hc] at hreads
      rw [hreads]
      rfl
  | some c =>
      rw [hc] at hreads
      obtain ⟨us, hus, hread⟩ := hreads
      have hflat : Flat us := Term.flat_of_ofTokens hus (by simp [Chain.terms])
      rw [hread]
      change Nesting.finish ⟨us, []⟩ = Outcome.orDivisionByZero c.value
      rw [Nesting.finish, if_pos ⟨rfl, (flat_iff.mp hflat).2⟩, reduce_chain hus]

theorem evaluate?_of_sum {s : String} {e : Sum} (ht : tokenize s = .ok e.tokens) (h : Readable e.tokens) :
    evaluate? s = Outcome.orDivisionByZero e.eval := by
  rw [evaluate?_eq_read, ht]
  exact e.read_finish h

end Calculator.Grammar
