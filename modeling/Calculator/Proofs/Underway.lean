import Calculator.Proofs.Pass

namespace Calculator

def oddOperators : List Term → List Operator
  | _ :: .operator op :: ts => op :: oddOperators ts
  | _ :: _ :: ts => oddOperators ts
  | _ => []

namespace Pass

/-- A state of the pass over `terms`, after `n` combinations. -/
inductive Underway (level : Precedence) (terms : List Term) : Nat → Pass → Prop
  | start : Underway level terms 0 (.start terms)
  | skipped {n : Nat} {p q : Pass} :
      Underway level terms n p → p.step level = .skipped q → Underway level terms n q
  | combined {n : Nat} {p q : Pass} {c : Combination} :
      Underway level terms n p → p.step level = .combined c q → Underway level terms (n + 1) q

/-- A value stands in front, and below the index only operators of the other level stand at odd positions. From the index
on the terms are those of the beginning, two places further on for each combination. -/
structure Invariant (level : Precedence) (terms : List Term) (n : Nat) (p : Pass) : Prop where
  odd : p.index % 2 = 1
  first : ∃ v, p.terms[0]? = some (.value v)
  behind : ∀ i < p.index, i % 2 = 1 → ∃ op, p.terms[i]? = some (.operator op) ∧ op.precedence ≠ level
  ahead : p.terms.drop p.index = terms.drop (p.index + 2 * n)

variable {level : Precedence} {ts out xs ys behind ahead : List Term} {n i : Nat} {p q : Pass} {c : Combination} {v : Float}

theorem drop_index (p : Pass) : p.terms.drop p.index = p.ahead.tail := by
  rw [terms, index, ← List.length_reverse, ← List.drop_drop, List.drop_left, List.drop_one]

theorem getElem?_index_add (p : Pass) (i : Nat) : p.terms[p.index + i]? = p.ahead.tail[i]? := by
  rw [← List.getElem?_drop, drop_index]

theorem getElem?_of_behind (h : q.behind = p.behind) (hi : i < p.behind.length) : q.terms[i]? = p.terms[i]? := by
  have hlt : i < p.behind.reverse.length := by simpa using hi
  rw [terms, terms, h, List.getElem?_append_left hlt, List.getElem?_append_left hlt]

theorem tail_skipped (h : p.step level = .skipped q) : q.ahead.tail = p.ahead.tail.drop 2 := by
  obtain ⟨left, op, rest, hp, -, rfl⟩ := step_eq_skipped h
  rw [hp]
  simp

theorem tail_combined (h : p.step level = .combined c q) : q.ahead.tail = p.ahead.tail.drop 2 := by
  obtain ⟨rest, hp, -, -, rfl⟩ := step_eq_combined h
  rw [hp]
  rfl

theorem index_skipped (h : p.step level = .skipped q) : q.index = p.index + 2 := by
  obtain ⟨left, op, rest, -, -, rfl⟩ := step_eq_skipped h
  rfl

namespace Invariant

theorem start (level : Precedence) (v : Float) (rest : List Term) :
    Invariant level (.value v :: rest) 0 (.start (.value v :: rest)) := by
  refine ⟨rfl, ⟨v, rfl⟩, ?_, rfl⟩
  intro i hi hodd
  have hzero : i < 1 := hi
  omega

theorem skipped (h : Invariant level ts n p) (hs : p.step level = .skipped q) : Invariant level ts n q := by
  have hterms := terms_skipped hs
  have hindex := index_skipped hs
  have hodd := h.odd
  refine ⟨by omega, ?_, ?_, ?_⟩
  · rw [hterms]
    exact h.first
  · intro i hi hiodd
    rw [hterms]
    rcases Nat.lt_or_ge i p.index with hlt | hge
    · exact h.behind i hlt hiodd
    · obtain rfl : i = p.index := by omega
      obtain ⟨left, op, rest, hp, hl, -⟩ := step_eq_skipped hs
      have hop := p.getElem?_index_add 0
      rw [hp] at hop
      exact ⟨op, hop, hl⟩
  · rw [drop_index, tail_skipped hs, ← drop_index, h.ahead, List.drop_drop, hindex, Nat.add_right_comm]

theorem combined (h : Invariant level ts n p) (hs : p.step level = .combined c q) :
    Invariant level ts (n + 1) q := by
  have hbehind := behind_combined hs
  have hindex : q.index = p.index := by rw [index, index, hbehind]
  have hodd := h.odd
  refine ⟨by rwa [hindex], ?_, ?_, ?_⟩
  · rcases Nat.eq_zero_or_pos p.behind.length with hzero | hpos
    · obtain ⟨rest, -, -, -, rfl⟩ := step_eq_combined hs
      rw [terms, List.eq_nil_of_length_eq_zero hzero]
      exact ⟨c.value, rfl⟩
    · rw [getElem?_of_behind hbehind hpos]
      exact h.first
  · intro i hi hiodd
    have hlt : i < p.behind.length := by
      rw [index] at hodd
      rw [hindex, index] at hi
      omega
    rw [getElem?_of_behind hbehind hlt]
    exact h.behind i (by omega) hiodd
  · rw [drop_index, tail_combined hs, ← drop_index, h.ahead, List.drop_drop, hindex, Nat.add_assoc, Nat.mul_succ]

theorem of_underway {rest : List Term} (h : Underway level (.value v :: rest) n p) :
    Invariant level (.value v :: rest) n p := by
  induction h with
  | start => exact start level v rest
  | skipped _ hs ih => exact ih.skipped hs
  | combined _ hs ih => exact ih.combined hs

theorem right_original (h : Invariant level ts n p) (hs : p.step level = .combined c q) :
    ts[p.index + 2 * n + 1]? = some (.value c.right) := by
  obtain ⟨rest, hp, -, -, -⟩ := step_eq_combined hs
  rw [← List.getElem?_drop, ← h.ahead, drop_index, hp]
  rfl

end Invariant

theorem exists_finished (h : (p.run level).outcome = .ok out) (hp : Underway level ts n p) :
    ∃ m q, Underway level ts m q ∧ q.step level = .finished ∧ q.terms = out := by
  fun_induction run level p generalizing n with
  | case1 p hs =>
      cases h
      exact ⟨n, p, hp, hs, rfl⟩
  | case2 p error hs => cases h
  | case3 p q hs ih => exact ih h (hp.skipped hs)
  | case4 p c q hs ih =>
      rw [Traced.outcome_bind] at h
      exact ih h (hp.combined hs)

theorem length_le_of_finished (h : p.step level = .finished) : p.terms.length ≤ p.index := by
  have hlength := step_finished h
  rw [terms, List.length_append, List.length_reverse, index]
  omega

theorem oddOperators_cons (t u : Term) (ts : List Term) : oddOperators (t :: ts) = oddOperators (u :: ts) := by
  cases ts with
  | nil => rfl
  | cons w ts => cases w <;> rfl

theorem oddOperators_of_length (h : ts.length ≤ 1) : oddOperators ts = [] := by
  match ts with
  | [] | [_] => rfl
  | _ :: _ :: _ => simp at h

/-- The operators of the level go, two terms with each of them, and the others stay in order. -/
theorem operators_of_run (h : (p.run level).outcome = .ok out) :
    ∃ rest, out = p.behind.reverse ++ rest ∧
      oddOperators rest = (oddOperators p.ahead).filter (·.precedence ≠ level) ∧
      p.ahead.length = rest.length + 2 * (oddOperators p.ahead).countP (·.precedence = level) := by
  fun_induction run level p with
  | case1 p hs =>
      cases h
      have hnone := oddOperators_of_length (step_finished hs)
      exact ⟨p.ahead, rfl, by simp [hnone], by simp [hnone]⟩
  | case2 p error hs => cases h
  | case3 p q hs ih =>
      obtain ⟨left, op, rest, hp, hl, rfl⟩ := step_eq_skipped hs
      obtain ⟨last, rfl, hkept, hlength⟩ := ih h
      change oddOperators last = (oddOperators rest).filter _ at hkept
      change rest.length = last.length + 2 * (oddOperators rest).countP _ at hlength
      refine ⟨left :: .operator op :: last, by simp, ?_, ?_⟩
      · rw [hp]
        simp [oddOperators, hkept, hl]
      · rw [hp]
        simp [oddOperators, hl, hlength, Nat.add_right_comm]
  | case4 p c q hs ih =>
      rw [Traced.outcome_bind] at h
      obtain ⟨rest, hp, hl, -, rfl⟩ := step_eq_combined hs
      obtain ⟨last, rfl, hkept, hlength⟩ := ih h
      rw [oddOperators_cons (.value c.value) (.value c.right)] at hkept hlength
      refine ⟨last, rfl, ?_, ?_⟩
      · rw [hkept, hp]
        simp [oddOperators, hl]
      · rw [hp]
        simp [oddOperators, hl] at hlength ⊢
        omega

/-- After the first pass the second one skips nothing. -/
theorem behind_of_additive (hc : Cleared .multiplicative ts) (h : Underway .additive ts n p) :
    p.behind = [] ∧ Cleared .multiplicative p.ahead := by
  induction h with
  | start => exact ⟨rfl, hc⟩
  | skipped _ hs ih => exact absurd hs ih.2.not_skipped
  | combined _ hs ih => exact ⟨(behind_combined hs).trans ih.1, ih.2.combined hs⟩

/-- Over a sequence with a value in front, every state of a pass keeps the invariant, and what stands on the right of an
operator has not been combined before. If the pass comes to an end, only operators of the other level are left between the
terms. They stand in order, and with each operator of the level two terms have gone. After the first level the second one
stays at the first operator, and one value is left in the end. -/
theorem run_invariant (v : Float) (rest : List Term) (level : Precedence) :
    (∀ n p, Underway level (.value v :: rest) n p →
      Invariant level (.value v :: rest) n p ∧
      ∀ c q, p.step level = .combined c q → (Term.value v :: rest)[p.index + 2 * n + 1]? = some (.value c.right)) ∧
    (∀ out, ((start (.value v :: rest)).run level).outcome = .ok out →
      (∃ n p, Underway level (.value v :: rest) n p ∧ p.step level = .finished ∧ p.terms = out) ∧
      (∀ i < out.length, i % 2 = 1 → ∃ op, out[i]? = some (.operator op) ∧ op.precedence ≠ level) ∧
      oddOperators out = (oddOperators (.value v :: rest)).filter (·.precedence ≠ level) ∧
      (Term.value v :: rest).length =
        out.length + 2 * (oddOperators (.value v :: rest)).countP (·.precedence = level)) ∧
    ∀ products, ((start (.value v :: rest)).run .multiplicative).outcome = .ok products →
      (∀ n p, Underway .additive products n p → p.index = 1) ∧
      ∀ sums, ((start products).run .additive).outcome = .ok sums → ∃ w, sums = [.value w] := by
  refine ⟨?_, ?_, ?_⟩
  · intro n p h
    have hinvariant := Invariant.of_underway h
    exact ⟨hinvariant, fun c q hs => hinvariant.right_original hs⟩
  · intro out h
    obtain ⟨n, p, hp, hs, rfl⟩ := exists_finished h .start
    obtain ⟨last, hlast, hkept, hlength⟩ := operators_of_run h
    obtain rfl : p.terms = last := hlast
    refine ⟨⟨n, p, hp, hs, rfl⟩, ?_, hkept, hlength⟩
    intro i hi hodd
    exact (Invariant.of_underway hp).behind i (Nat.lt_of_lt_of_le hi (length_le_of_finished hs)) hodd
  · intro products h
    obtain ⟨last, hlast, hcleared⟩ := run_eq_ok h
    obtain rfl : products = last := hlast
    refine ⟨?_, fun sums hs => single_of_passes rfl h hs⟩
    intro n p hp
    rw [index, (behind_of_additive hcleared hp).1]
    rfl

theorem run_invariant_product :
    Invariant .multiplicative [.value 1.0, .operator .add, .value 2.0, .operator .multiply, .value 3.0,
        .operator .subtract, .value 4.0] 1
      ⟨[.operator .add, .value 1.0], [.value (2.0 * 3.0), .operator .subtract, .value 4.0]⟩ ∧
    oddOperators [.value 1.0, .operator .add, .value (2.0 * 3.0), .operator .subtract, .value 4.0] =
      [.add, .subtract] ∧
    index ⟨[], [.value (1.0 + 2.0 * 3.0), .operator .subtract, .value 4.0]⟩ = 1 := by
  obtain ⟨hstates, hends, hlast⟩ := run_invariant 1.0 [.operator .add, .value 2.0, .operator .multiply, .value 3.0,
    .operator .subtract, .value 4.0] .multiplicative
  have hskipped : Underway .multiplicative [.value 1.0, .operator .add, .value 2.0, .operator .multiply, .value 3.0,
      .operator .subtract, .value 4.0] 0
        ⟨[.operator .add, .value 1.0], [.value 2.0, .operator .multiply, .value 3.0, .operator .subtract, .value 4.0]⟩ :=
    .skipped .start rfl
  have hproduct := hskipped.combined (c := ⟨2.0, .multiply, 3.0, 2.0 * 3.0⟩) rfl
  have hout : ((start [.value 1.0, .operator .add, .value 2.0, .operator .multiply, .value 3.0, .operator .subtract,
      .value 4.0]).run .multiplicative).outcome =
        .ok [.value 1.0, .operator .add, .value (2.0 * 3.0), .operator .subtract, .value 4.0] := by
    rw [run_skipped rfl, run_combined rfl, run_skipped rfl, run_finished rfl]
    rfl
  have hstart : Underway .additive [.value 1.0, .operator .add, .value (2.0 * 3.0), .operator .subtract, .value 4.0] 0
      (start [.value 1.0, .operator .add, .value (2.0 * 3.0), .operator .subtract, .value 4.0]) := .start
  have hsum := hstart.combined (c := ⟨1.0, .add, 2.0 * 3.0, 1.0 + 2.0 * 3.0⟩) rfl
  exact ⟨(hstates _ _ hproduct).1, (hends _ hout).2.2.1, (hlast _ hout).1 1 _ hsum⟩

end Pass

end Calculator
