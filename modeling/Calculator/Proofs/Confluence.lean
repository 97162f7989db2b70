import Calculator.Proofs.Splice

namespace Calculator

/-- Some group that holds no other one gives way to its value. -/
inductive GroupStep : List Token → List Token → Prop
  | replace (g : Group) {v : Float} (flat : Flat g.inside) (value : (reduce g.inside).outcome = .ok v) :
      GroupStep g.tokens (g.replaceBy v)

/-- So many groups give way one after the other. -/
inductive GroupSteps : Nat → List Token → List Token → Prop
  | refl (ts : List Token) : GroupSteps 0 ts ts
  | step {n : Nat} {ts us vs : List Token} : GroupStep ts us → GroupSteps n us vs → GroupSteps (n + 1) ts vs

variable {n : Nat} {ts us : List Token} {m : Nesting} {e : EvalError}

theorem Group.tokens_eq_grouped (g : Group) : g.tokens = g.before ++ (grouped g.inside ++ g.after) := by
  simp [tokens, grouped]

theorem GroupStep.read_eq (h : GroupStep ts us) : Nesting.start.read ts = Nesting.start.read us := by
  obtain ⟨g, flat, value⟩ := h
  rw [g.tokens_eq_grouped]
  exact Nesting.read_spliced (read_grouped_flat flat value) (flat_singleton rfl) g.before g.after

theorem GroupStep.not_unmatched (h : GroupStep ts us) : ¬ Unmatched ts := by
  obtain ⟨g, -, -⟩ := h
  exact g.not_unmatched

theorem GroupSteps.read_eq (h : GroupSteps n ts us) : Nesting.start.read ts = Nesting.start.read us := by
  induction h with
  | refl ts => rfl
  | step hs _ ih => exact hs.read_eq.trans ih

theorem GroupStep.count (h : GroupStep ts us) :
    us.count .opening + 1 = ts.count .opening ∧ us.count .closing + 1 = ts.count .closing := by
  obtain ⟨g, flat, -⟩ := h
  obtain ⟨ho, hc⟩ := flat_iff.mp flat
  constructor
  · simp [Group.tokens, Group.replaceBy, List.count_eq_zero_of_not_mem ho]
    omega
  · simp [Group.tokens, Group.replaceBy, List.count_eq_zero_of_not_mem hc]
    omega

theorem GroupSteps.count (h : GroupSteps n ts us) :
    us.count .opening + n = ts.count .opening ∧ us.count .closing + n = ts.count .closing := by
  induction h with
  | refl ts => exact ⟨rfl, rfl⟩
  | step hs _ ih =>
      obtain ⟨ho, hc⟩ := hs.count
      omega

theorem GroupSteps.le_min (h : GroupSteps n ts us) : n ≤ min (ts.count .opening) (ts.count .closing) := by
  obtain ⟨ho, hc⟩ := h.count
  omega

namespace Nesting

open Outcome

theorem exists_read_of_failure (h : ∀ e, (resolve ts).failure = some e → e = .unbalancedParentheses) :
    ∃ m, start.read ts = .ok m := by
  cases hread : start.read ts with
  | ok m => exact ⟨m, rfl⟩
  | error e =>
      have hsequential := sequential_of_read hread
      have hne : e ≠ .unbalancedParentheses := by
        rintro rfl
        exact hsequential
      exact absurd (h e ((read_error_iff hne).mpr hread)) hne

theorem tokens_of_read (h : start.read ts = .ok m) : (resolve ts).tokens = m.tokens :=
  congrArg Prod.fst (result_of_read h)

theorem exists_value_of_read {g : Group} (h : start.read g.tokens = .ok m) (flat : Flat g.inside) :
    ∃ v, (reduce g.inside).outcome = .ok v := by
  rw [g.tokens_eq_grouped, read_append] at h
  obtain ⟨k, -, h⟩ := bind_eq_ok.mp h
  rw [read_append, read_grouped_of_read (read_flat flat)] at h
  cases hv : (reduce g.inside).outcome with
  | ok v => exact ⟨v, rfl⟩
  | error e =>
      rw [hv] at h
      cases h

end Nesting

theorem resolve_unmatched (h : Unmatched ts) :
    (resolve ts).tokens = ts ∧ ∀ e, (resolve ts).failure = some e → e = .unbalancedParentheses := by
  have hfind := Group.find?_of_unmatched h
  by_cases hm : .opening ∈ ts ∧ .closing ∈ ts
  · have hround : Round.of ts = .failed [] .unbalancedParentheses := by rw [Round.of, if_pos hm, hfind]
    rw [resolve_failed hround]
    exact ⟨rfl, fun e he => (Option.some.inj he).symm⟩
  · have hround : Round.of ts = .settled := by rw [Round.of, if_neg hm]
    rw [resolve_settled hround]
    refine ⟨rfl, fun e he => ?_⟩
    cases he

theorem exists_group (h : ¬ Unmatched ts) : ∃ g : Group, g.tokens = ts ∧ Flat g.inside := by
  obtain ⟨g, hg⟩ := Option.ne_none_iff_exists'.mp (mt Group.find?_eq_none_iff.mp h)
  exact ⟨g, Group.find?_eq_some hg⟩

/-- In whatever order groups give way to their values, it takes finitely many steps. If the rounds of `resolve` meet
no group that fails, no order does, and each one ends with the sequence that the rounds leave. If they do, every
order comes to a group that fails before its pairs of parentheses are used up. -/
theorem resolve_any_order (ts : List Token) :
    ((∀ e, (resolve ts).failure = some e → e = .unbalancedParentheses) → ∀ n us, GroupSteps n ts us →
      n ≤ min (ts.count .opening) (ts.count .closing) ∧
      (∀ g : Group, g.tokens = us → Flat g.inside → ∃ v, (reduce g.inside).outcome = .ok v) ∧
      ((∀ vs, ¬ GroupStep us vs) → us = (resolve ts).tokens)) ∧
    ∀ e, (resolve ts).failure = some e → e ≠ .unbalancedParentheses → ∀ n us, GroupSteps n ts us →
      n ≤ min (ts.count .opening) (ts.count .closing) ∧
      ¬ Unmatched us ∧
      ((∀ vs, ¬ GroupStep us vs) →
        ∃ (g : Group) (e : EvalError), g.tokens = us ∧ Flat g.inside ∧ (reduce g.inside).outcome = .error e) := by
  constructor
  · intro hfailure n us hsteps
    obtain ⟨m, hread⟩ := Nesting.exists_read_of_failure hfailure
    have hreached : Nesting.start.read us = .ok m := hsteps.read_eq ▸ hread
    have hvalue (g : Group) (hg : g.tokens = us) (flat : Flat g.inside) : ∃ v, (reduce g.inside).outcome = .ok v := by
      subst hg
      exact Nesting.exists_value_of_read hreached flat
    refine ⟨hsteps.le_min, hvalue, fun hend => ?_⟩
    have hunmatched : Unmatched us := by
      by_contra hmatched
      obtain ⟨g, rfl, flat⟩ := exists_group hmatched
      obtain ⟨v, hv⟩ := hvalue g rfl flat
      exact hend _ (.replace g flat hv)
    rw [Nesting.tokens_of_read hread, ← Nesting.tokens_of_read hreached, (resolve_unmatched hunmatched).1]
  · intro e hfailure hne n us hsteps
    have hread := (Nesting.read_error_iff hne).mp hfailure
    have hreached : Nesting.start.read us = .error e := hsteps.read_eq ▸ hread
    have hmatched : ¬ Unmatched us := by
      intro hunmatched
      obtain ⟨m, hm⟩ := Nesting.exists_read_of_failure (resolve_unmatched hunmatched).2
      rw [hm] at hreached
      cases hreached
    refine ⟨hsteps.le_min, hmatched, fun hend => ?_⟩
    obtain ⟨g, rfl, flat⟩ := exists_group hmatched
    cases hv : (reduce g.inside).outcome with
    | ok v => exact absurd (.replace g flat hv) (hend _)
    | error e => exact ⟨g, e, rfl, flat, hv⟩

theorem resolve_right_group_first :
    (resolve [.closing, .opening, .literal "1", .closing, .opening, .opening, .literal "2", .closing]).tokens =
        [.closing, .value 1.0, .opening, .value 2.0] ∧
      ¬ Unmatched [.opening, .closing, .value 2.0] := by
  have htwo : (reduce [.literal "2"]).outcome = .ok 2.0 := by decide +kernel
  constructor
  · have hright : GroupStep [.closing, .opening, .literal "1", .closing, .opening, .opening, .literal "2", .closing]
        [.closing, .opening, .literal "1", .closing, .opening, .value 2.0] :=
      .replace ⟨[.closing, .opening, .literal "1", .closing, .opening], [.literal "2"], []⟩ (by decide) htwo
    have hleft : GroupStep [.closing, .opening, .literal "1", .closing, .opening, .value 2.0]
        [.closing, .value 1.0, .opening, .value 2.0] :=
      .replace ⟨[.closing], [.literal "1"], [.opening, .value 2.0]⟩ (by decide) (by decide +kernel)
    have hend (vs : List Token) : ¬ GroupStep [.closing, .value 1.0, .opening, .value 2.0] vs :=
      fun hstep => hstep.not_unmatched (by decide)
    have hfailure : (resolve [.closing, .opening, .literal "1", .closing, .opening, .opening, .literal "2",
        .closing]).failure = some .unbalancedParentheses := by decide +kernel
    refine (((resolve_any_order _).1 (fun e he => ?_) 2 _ (.step hright (.step hleft (.refl _)))).2.2 hend).symm
    rw [hfailure] at he
    exact (Option.some.inj he).symm
  · have hright : GroupStep [.opening, .closing, .opening, .literal "2", .closing] [.opening, .closing, .value 2.0] :=
      .replace ⟨[.opening, .closing], [.literal "2"], []⟩ (by decide) htwo
    exact ((resolve_any_order _).2 .emptyExpression (by decide +kernel) (by decide) 1 _ (.step hright (.refl _))).2.1

end Calculator
