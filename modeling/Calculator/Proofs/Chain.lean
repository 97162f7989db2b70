import Calculator.Proofs.Outcome
import Calculator.Proofs.Pass

namespace Calculator

open Outcome

structure Chain where
  head : Float
  tail : List (Operator × Float)
deriving DecidableEq, Repr

namespace Chain

def terms (c : Chain) : List Term :=
  .value c.head :: c.tail.flatMap fun x => [.operator x.1, .value x.2]

def fold (c : Chain) : Option Float := c.tail.foldlM (fun v x => x.1.value? v x.2) c.head

def combine (level : Precedence) (head : Float) : List (Operator × Float) → Option Chain
  | [] => some ⟨head, []⟩
  | (op, v) :: tail =>
      if op.precedence = level then op.value? head v >>= fun w => combine level w tail
      else (combine level v tail).map fun c => ⟨head, (op, c.head) :: c.tail⟩

def value (c : Chain) : Option Float := combine .multiplicative c.head c.tail >>= fold

theorem terms_cons (head : Float) (op : Operator) (v : Float) (tail : List (Operator × Float)) :
    (mk head ((op, v) :: tail)).terms = .value head :: .operator op :: (mk v tail).terms := rfl

theorem combine_of_eq {level : Precedence} {op : Operator} (h : op.precedence = level) (head v : Float)
    (tail : List (Operator × Float)) :
    combine level head ((op, v) :: tail) = op.value? head v >>= fun w => combine level w tail := if_pos h

theorem combine_of_ne {level : Precedence} {op : Operator} (h : op.precedence ≠ level) (head v : Float)
    (tail : List (Operator × Float)) :
    combine level head ((op, v) :: tail) =
      (combine level v tail).map fun c => ⟨head, (op, c.head) :: c.tail⟩ := if_neg h

end Chain

namespace Pass

theorem run_chain (level : Precedence) (behind : List Term) (head : Float) (tail : List (Operator × Float)) :
    ((mk behind (Chain.mk head tail).terms).run level).outcome =
      orDivisionByZero ((Chain.combine level head tail).map fun c => behind.reverse ++ c.terms) := by
  induction tail generalizing behind head with
  | nil => rw [run_finished rfl]; rfl
  | cons x tail ih =>
      obtain ⟨op, v⟩ := x
      rw [Chain.terms_cons]
      by_cases hl : op.precedence = level
      · cases hv : op.value? head v with
        | none =>
            have hs : (mk behind (.value head :: .operator op :: (Chain.mk v tail).terms)).step level =
                .failed .divisionByZero := by
              simp [step_of_level hl, combination, Chain.terms, Term.value?, Operator.apply_eq_value?, hv,
                orDivisionByZero, Except.map]
            rw [run_failed hs, Chain.combine_of_eq hl, hv]
            rfl
        | some w =>
            have hs : (mk behind (.value head :: .operator op :: (Chain.mk v tail).terms)).step level =
                .combined ⟨head, op, v, w⟩ ⟨behind, (Chain.mk w tail).terms⟩ := by
              simp [step_of_level hl, combination, Chain.terms, Term.value?, Operator.apply_eq_value?, hv,
                orDivisionByZero, Except.map]
            rw [run_combined hs, Chain.combine_of_eq hl, hv, Traced.outcome_bind, ih]
            rfl
      · have hs : (mk behind (.value head :: .operator op :: (Chain.mk v tail).terms)).step level =
            .skipped ⟨.operator op :: .value head :: behind, (Chain.mk v tail).terms⟩ := if_neg hl
        rw [run_skipped hs, ih, Chain.combine_of_ne hl, Option.map_map]
        simp [Function.comp_def, Chain.terms]

theorem chain_of_run {level : Precedence} {p : Pass} {d : Chain}
    (h : (p.run level).outcome = .ok (p.behind.reverse ++ d.terms)) : ∃ c : Chain, p.ahead = c.terms := by
  fun_induction run level p generalizing d with
  | case1 p hs =>
      refine ⟨d, ?_⟩
      simpa [Pass.terms] using h
  | case2 p error hs => cases h
  | case3 p q hs ih =>
      obtain ⟨left, op, rest, hp, hl, rfl⟩ := step_eq_skipped hs
      obtain ⟨out, hout, -⟩ := run_eq_ok h
      have hd : d.terms = left :: .operator op :: out := by simpa using hout
      obtain ⟨head, _ | ⟨⟨op', v⟩, tail⟩⟩ := d
      · cases hd
      · cases hd
        obtain ⟨c, hc⟩ := @ih ⟨v, tail⟩ (by simpa [Chain.terms] using h)
        have hc : rest = c.terms := hc
        exact ⟨⟨head, (op', c.head) :: c.tail⟩, by rw [hp, hc, Chain.terms_cons]⟩
  | case4 p w q hs ih =>
      obtain ⟨rest, hp, -, -, rfl⟩ := step_eq_combined hs
      obtain ⟨c, hc⟩ := ih h
      have hrest : rest = (Chain.mk w.right c.tail).terms.tail := (List.cons.inj hc).2
      exact ⟨⟨w.left, (w.operator, w.right) :: c.tail⟩, by rw [hp, hrest]; rfl⟩

end Pass

theorem reduce_outcome (tokens : List Token) :
    (reduce tokens).outcome =
      (Term.ofTokens tokens >>= fun terms => Term.first terms >>= fun _ =>
        ((Pass.start terms).run .multiplicative).outcome >>= fun products =>
          ((Pass.start products).run .additive).outcome >>= Term.first) := by
  simp [reduce, Precedence.levels]
  rfl

namespace Chain

theorem combine_eq_fold {level : Precedence} {head : Float} {tail : List (Operator × Float)}
    (h : ∀ x ∈ tail, x.1.precedence = level) :
    combine level head tail = (mk head tail).fold.map fun v => ⟨v, []⟩ := by
  induction tail generalizing head with
  | nil => rfl
  | cons x tail ih =>
      obtain ⟨op, v⟩ := x
      rw [combine_of_eq (h _ List.mem_cons_self), fold, List.foldlM_cons]
      cases hw : op.value? head v with
      | none => rfl
      | some w => exact ih fun x hx => h x (List.mem_cons_of_mem _ hx)

theorem precedence_of_combine {level : Precedence} {head : Float} {tail : List (Operator × Float)} {c : Chain}
    (h : combine level head tail = some c) : ∀ x ∈ c.tail, x.1.precedence ≠ level := by
  induction tail generalizing head c with
  | nil => cases h; simp
  | cons x tail ih =>
      obtain ⟨op, v⟩ := x
      by_cases hl : op.precedence = level
      · rw [combine_of_eq hl] at h
        obtain ⟨w, -, h⟩ := Option.bind_eq_some_iff.mp h
        exact ih h
      · rw [combine_of_ne hl] at h
        obtain ⟨d, hd, rfl⟩ := Option.map_eq_some_iff.mp h
        intro x hx
        rcases List.mem_cons.mp hx with rfl | hx
        · exact hl
        · exact ih hd x hx

def join (c : Chain) (op : Operator) (d : Chain) : Chain := ⟨c.head, c.tail ++ (op, d.head) :: d.tail⟩

theorem terms_join (c : Chain) (op : Operator) (d : Chain) :
    (c.join op d).terms = c.terms ++ .operator op :: d.terms := by
  simp [terms, join]

theorem join_join (c : Chain) (op : Operator) (d : Chain) (op' : Operator) (g : Chain) :
    c.join op (d.join op' g) = (c.join op d).join op' g := by
  simp [join]

theorem fold_join (c : Chain) (op : Operator) (v : Float) :
    (c.join op ⟨v, []⟩).fold = c.fold >>= fun w => op.value? w v := by
  rw [fold, join, List.foldlM_append, fold]
  simp

theorem combine_append {level : Precedence} {op : Operator} (h : op.precedence ≠ level) (head : Float)
    (tail : List (Operator × Float)) (d : Chain) :
    combine level head (tail ++ (op, d.head) :: d.tail) =
      combine level head tail >>= fun c => (combine level d.head d.tail).map (c.join op) := by
  induction tail generalizing head with
  | nil =>
      rw [List.nil_append, combine_of_ne h]
      rfl
  | cons x tail ih =>
      obtain ⟨op', v⟩ := x
      rw [List.cons_append]
      by_cases hl : op'.precedence = level
      · rw [combine_of_eq hl, combine_of_eq hl]
        cases op'.value? head v with
        | none => rfl
        | some w => exact ih w
      · rw [combine_of_ne hl, combine_of_ne hl, ih]
        cases combine level v tail with
        | none => rfl
        | some c =>
            cases combine level d.head d.tail with
            | none => rfl
            | some c' => rfl

theorem value_of_multiplicative {c : Chain} (h : ∀ x ∈ c.tail, x.1.precedence = .multiplicative) :
    c.value = c.fold := by
  rw [value, combine_eq_fold h]
  change (c.fold.map _ >>= fold) = c.fold
  cases c.fold <;> rfl

theorem value_join {op : Operator} (h : op.precedence = .additive) (c : Chain) {d : Chain}
    (hd : ∀ x ∈ d.tail, x.1.precedence = .multiplicative) :
    (c.join op d).value = c.value >>= fun v => d.fold >>= op.value? v := by
  have hne : op.precedence ≠ .multiplicative := by
    rw [h]
    decide
  rw [value, join, combine_append hne, combine_eq_fold hd, value]
  cases combine .multiplicative c.head c.tail with
  | none => rfl
  | some b =>
      cases d.fold with
      | none =>
          change none = b.fold >>= fun _ => none
          cases b.fold <;> rfl
      | some w => exact fold_join b op w

end Chain

theorem reduce_chain {tokens : List Token} {c : Chain} (h : Term.ofTokens tokens = .ok c.terms) :
    (reduce tokens).outcome = orDivisionByZero c.value := by
  have hp := Pass.run_chain .multiplicative [] c.head c.tail
  rw [reduce_outcome, h]
  change (((Pass.mk [] c.terms).run .multiplicative).outcome >>= _) = _
  rw [hp, Chain.value]
  cases hd : Chain.combine .multiplicative c.head c.tail with
  | none => rfl
  | some d =>
      have hadd : ∀ x ∈ d.tail, x.1.precedence = .additive := fun x hx =>
        Pass.precedence_eq_additive (Chain.precedence_of_combine hd x hx)
      have hq := Pass.run_chain .additive [] d.head d.tail
      rw [Chain.combine_eq_fold hadd] at hq
      change (((Pass.mk [] d.terms).run .additive).outcome >>= _) = _
      rw [hq]
      change _ = orDivisionByZero d.fold
      cases d.fold <;> rfl

/-- Only an alternating sequence has a value. -/
theorem chain_of_reduce {tokens : List Token} {v : Float} (h : (reduce tokens).outcome = .ok v) :
    ∃ c : Chain, Term.ofTokens tokens = .ok c.terms ∧ c.value = some v := by
  have hv := h
  rw [reduce_outcome] at h
  obtain ⟨terms, hterms, h⟩ := bind_eq_ok.mp h
  obtain ⟨x, hx, h⟩ := bind_eq_ok.mp h
  obtain ⟨products, hp, h⟩ := bind_eq_ok.mp h
  obtain ⟨sums, hs, h⟩ := bind_eq_ok.mp h
  obtain ⟨w, rfl⟩ := Pass.single_of_passes hx hp hs
  obtain ⟨d, hd⟩ := Pass.chain_of_run (p := Pass.start products) (d := ⟨w, []⟩) hs
  obtain ⟨c, hc⟩ := Pass.chain_of_run (p := Pass.start terms) (d := d) (by rw [hp]; exact congrArg _ hd)
  refine ⟨c, hterms.trans (congrArg _ hc), ?_⟩
  rw [reduce_chain (hterms.trans (congrArg _ hc))] at hv
  exact orDivisionByZero_eq_ok.mp hv

end Calculator
