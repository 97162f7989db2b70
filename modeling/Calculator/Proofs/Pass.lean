import Calculator.Reduction

namespace Calculator

theorem Term.first_eq_ok {ts : List Term} {v : Float} (h : first ts = .ok v) : ∃ rest, ts = .value v :: rest := by
  cases ts with
  | nil => cases h
  | cons t rest =>
      cases t with
      | value w =>
          cases h
          exact ⟨rest, rfl⟩
      | operator | foreign => cases h

namespace Pass

theorem step_finished {level : Precedence} {p : Pass} (h : p.step level = .finished) :
    p.ahead.length ≤ 1 := by
  unfold step at h
  split at h
  · split at h
    · split at h <;> cases h
    · cases h
  · cases h
  · next hc hn =>
      match hp : p.ahead with
      | [] | [_] => simp
      | t :: u :: ts => exact absurd hp (hn t u ts)

theorem two_le_of_step {level : Precedence} {p : Pass} (h : p.step level ≠ .finished) : 2 ≤ p.ahead.length := by
  obtain ⟨behind, _ | ⟨left, _ | ⟨t, rest⟩⟩⟩ := p
  · exact absurd rfl h
  · exact absurd rfl h
  · simp

theorem step_of_level {level : Precedence} {op : Operator} (hl : op.precedence = level) (behind : List Term)
    (left : Term) (rest : List Term) :
    step level ⟨behind, left :: .operator op :: rest⟩ =
      match combination op (behind.length + 1) left rest.head? with
      | .ok c => .combined c ⟨behind, .value c.value :: rest.tail⟩
      | .error e => .failed e := if_pos hl

theorem step_eq_skipped {level : Precedence} {p q : Pass} (h : p.step level = .skipped q) :
    ∃ left op rest, p.ahead = left :: .operator op :: rest ∧ op.precedence ≠ level ∧
      q = ⟨.operator op :: left :: p.behind, rest⟩ := by
  unfold step at h
  split at h
  · next left op rest hp =>
      split at h
      · split at h <;> cases h
      · next hl =>
          cases h
          exact ⟨left, op, rest, hp, hl, rfl⟩
  · cases h
  · cases h

theorem step_eq_combined {level : Precedence} {p q : Pass} {c : Combination}
    (h : p.step level = .combined c q) :
    ∃ rest, p.ahead = .value c.left :: .operator c.operator :: .value c.right :: rest ∧
      c.operator.precedence = level ∧ c.operator.apply c.left c.right = .ok c.value ∧
      q = ⟨p.behind, .value c.value :: rest⟩ := by
  unfold step at h
  split at h
  · next left op rest hp =>
      split at h
      · next hl =>
          split at h
          · next hc =>
              cases h
              obtain ⟨rfl, rfl, hr, ha⟩ := combination_eq_ok hc
              obtain ⟨rest, rfl⟩ := List.head?_eq_some_iff.mp hr
              exact ⟨rest, hp, hl, ha, rfl⟩
          · cases h
      · cases h
  · cases h
  · cases h

theorem behind_combined {level : Precedence} {p q : Pass} {c : Combination} (h : p.step level = .combined c q) :
    q.behind = p.behind := by
  obtain ⟨rest, -, -, -, rfl⟩ := step_eq_combined h
  rfl

/-- What a completed pass leaves between the terms: only operators of the other level. -/
def Cleared (level : Precedence) : List Term → Prop
  | [] | [_] => True
  | _ :: t :: ts => (∃ op : Operator, t = .operator op ∧ op.precedence ≠ level) ∧ Cleared level ts

theorem cleared_of_length {level : Precedence} {ts : List Term} (h : ts.length ≤ 1) : Cleared level ts := by
  match ts with
  | [] | [_] => trivial
  | _ :: _ :: _ => simp at h

theorem Cleared.head {level : Precedence} {t : Term} {ts : List Term} (h : Cleared level (t :: ts)) (u : Term) :
    Cleared level (u :: ts) := by
  cases ts with
  | nil => trivial
  | cons => exact h

theorem run_eq_ok {level : Precedence} {p : Pass} {out : List Term} (h : (p.run level).outcome = .ok out) :
    ∃ rest, out = p.behind.reverse ++ rest ∧ Cleared level rest := by
  fun_induction run level p with
  | case1 p hs =>
      cases h
      exact ⟨p.ahead, rfl, cleared_of_length (step_finished hs)⟩
  | case2 p error hs => cases h
  | case3 p q hs ih =>
      obtain ⟨left, op, rest, -, hl, rfl⟩ := step_eq_skipped hs
      obtain ⟨rest, rfl, hc⟩ := ih h
      exact ⟨left :: .operator op :: rest, by simp, ⟨op, rfl, hl⟩, hc⟩
  | case4 p c q hs ih =>
      obtain ⟨rest, -, -, -, rfl⟩ := step_eq_combined hs
      exact ih h

theorem precedence_eq_additive {op : Operator} (h : op.precedence ≠ .multiplicative) : op.precedence = .additive := by
  cases op <;> simp_all [Operator.precedence]

theorem Cleared.not_skipped {p q : Pass} (h : Cleared .multiplicative p.ahead) : p.step .additive ≠ .skipped q := by
  intro hs
  obtain ⟨left, op, rest, hp, hl, -⟩ := step_eq_skipped hs
  rw [hp] at h
  obtain ⟨⟨op', hop, hm⟩, -⟩ := h
  cases hop
  exact hl (precedence_eq_additive hm)

theorem Cleared.combined {level level' : Precedence} {p q : Pass} {c : Combination} (h : Cleared level p.ahead)
    (hs : p.step level' = .combined c q) : Cleared level q.ahead := by
  obtain ⟨rest, hp, -, -, rfl⟩ := step_eq_combined hs
  rw [hp] at h
  exact h.2.head _

theorem run_additive {p : Pass} {out : List Term} (hb : p.behind = []) (hc : Cleared .multiplicative p.ahead)
    (h : (p.run .additive).outcome = .ok out) : out.length ≤ 1 := by
  fun_induction run .additive p with
  | case1 p hs =>
      cases h
      rw [terms, hb]
      exact step_finished hs
  | case2 p error hs => cases h
  | case3 p q hs ih => exact absurd hs hc.not_skipped
  | case4 p c q hs ih => exact ih ((behind_combined hs).trans hb) (hc.combined hs) h

theorem terms_skipped {level : Precedence} {p q : Pass} (h : p.step level = .skipped q) : q.terms = p.terms := by
  obtain ⟨left, op, rest, hp, -, rfl⟩ := step_eq_skipped h
  simp [terms, hp]

/-- A value stays in front, be it that it is combined with what follows it. -/
theorem first_of_run {level : Precedence} {p : Pass} {out : List Term} {v : Float}
    (h : (p.run level).outcome = .ok out) (hp : Term.first p.terms = .ok v) : ∃ w, Term.first out = .ok w := by
  fun_induction run level p generalizing v with
  | case1 p hs =>
      cases h
      exact ⟨v, hp⟩
  | case2 p error hs => cases h
  | case3 p q hs ih => exact ih h (by rwa [terms_skipped hs])
  | case4 p c q hs ih =>
      obtain ⟨rest, hahead, -, -, rfl⟩ := step_eq_combined hs
      rw [terms, hahead] at hp
      have hq : ∃ w, Term.first (terms ⟨p.behind, .value c.value :: rest⟩) = .ok w := by
        rw [terms]
        generalize p.behind.reverse = us at hp
        cases us with
        | nil => exact ⟨c.value, rfl⟩
        | cons t ts => exact ⟨v, hp⟩
      obtain ⟨w, hw⟩ := hq
      exact ih h hw

theorem single_of_passes {ts products sums : List Term} {v : Float} (h : Term.first ts = .ok v)
    (hp : ((start ts).run .multiplicative).outcome = .ok products)
    (hs : ((start products).run .additive).outcome = .ok sums) : ∃ w, sums = [.value w] := by
  obtain ⟨rest, hrest, hc⟩ := run_eq_ok hp
  obtain rfl : products = rest := hrest
  have hone := run_additive rfl hc hs
  obtain ⟨v, hv⟩ := first_of_run hp h
  obtain ⟨w, hw⟩ := first_of_run hs hv
  obtain ⟨us, rfl⟩ := Term.first_eq_ok hw
  have hus : us = [] := List.length_eq_zero_iff.mp (by simpa using hone)
  exact ⟨w, by rw [hus]⟩

end Pass
end Calculator
