import Calculator.Proofs.Unmatched

namespace Calculator

/-- Rounds that replaced a group each, from one sequence to another, and the records of each round. -/
inductive Rounds : List (List Event) → List Token → List Token → Prop
  | refl (ts : List Token) : Rounds [] ts ts
  | round {events : List Event} {logs : List (List Event)} {ts us vs : List Token} :
      Round.of ts = .replaced events us → Rounds logs us vs → Rounds (events :: logs) ts vs

theorem exists_rounds (ts : List Token) :
    ∃ logs us, Rounds logs ts us ∧
      ((Round.of us = .settled ∧ resolve ts = ⟨logs.flatten, us, none⟩) ∨
        ∃ last e, Round.of us = .failed last e ∧ resolve ts = ⟨logs.flatten ++ last, us, some e⟩) := by
  fun_induction resolve ts with
  | case1 ts hs => exact ⟨[], ts, .refl ts, .inl ⟨hs, rfl⟩⟩
  | case2 ts last e hs => exact ⟨[], ts, .refl ts, .inr ⟨last, e, hs, rfl⟩⟩
  | case3 ts events next hs ih =>
      obtain ⟨logs, us, hrounds, ⟨hend, hresolve⟩ | ⟨last, e, hend, hresolve⟩⟩ := ih
      · refine ⟨events :: logs, us, .round hs hrounds, .inl ⟨hend, ?_⟩⟩
        rw [hresolve]
        rfl
      · refine ⟨events :: logs, us, .round hs hrounds, .inr ⟨last, e, hend, ?_⟩⟩
        rw [hresolve, Resolution.after, List.flatten_cons, List.append_assoc]

variable {logs : List (List Event)} {ts us : List Token}

theorem resolve_of_rounds (h : Rounds logs ts us) : resolve ts = (resolve us).after logs.flatten := by
  induction h with
  | refl ts => rfl
  | round hround _ ih =>
      rw [resolve_replaced hround, ih, Resolution.after, Resolution.after, Resolution.after, List.flatten_cons,
        List.append_assoc]

theorem round_of_resolved (ts : List Token) :
    (Round.of (resolve ts).tokens = .settled ∧ (resolve ts).failure = none) ∨
      ∃ last e, Round.of (resolve ts).tokens = .failed last e ∧ (resolve ts).failure = some e := by
  obtain ⟨logs, us, -, ⟨hend, hresolve⟩ | ⟨last, e, hend, hresolve⟩⟩ := exists_rounds ts
  · rw [hresolve]
    exact .inl ⟨hend, rfl⟩
  · rw [hresolve]
    exact .inr ⟨last, e, hend, rfl⟩

theorem Rounds.of_resolved (h : Rounds logs (resolve ts).tokens us) : logs = [] := by
  cases h with
  | refl => rfl
  | round hround =>
      rcases round_of_resolved ts with ⟨hend, -⟩ | ⟨last, e, hend, -⟩
      · rw [hend] at hround
        cases hround
      · rw [hend] at hround
        cases hround

theorem resolve_resolved (ts : List Token) :
    (resolve (resolve ts).tokens).tokens = (resolve ts).tokens ∧
      (resolve (resolve ts).tokens).failure = (resolve ts).failure := by
  rcases round_of_resolved ts with ⟨hend, hfailure⟩ | ⟨last, e, hend, hfailure⟩
  · rw [resolve_settled hend, hfailure]
    exact ⟨rfl, rfl⟩
  · rw [resolve_failed hend, hfailure]
    exact ⟨rfl, rfl⟩

/-- Resolving may be broken off after any number of rounds and taken up again: it comes to the same result and leaves the
same, and the rounds that were done are not logged again. What it leaves is resolved to itself with the same result,
also after an error, and without a round that replaces a group. -/
theorem resolve_resumed (ts : List Token) :
    (∀ logs us, Rounds logs ts us →
      (resolve us).failure = (resolve ts).failure ∧ (resolve us).tokens = (resolve ts).tokens ∧
        logs.flatten ++ (resolve us).events = (resolve ts).events) ∧
      (resolve (resolve ts).tokens).failure = (resolve ts).failure ∧
      (resolve (resolve ts).tokens).tokens = (resolve ts).tokens ∧
      ∀ logs us, Rounds logs (resolve ts).tokens us → logs = [] := by
  obtain ⟨htokens, hfailure⟩ := resolve_resolved ts
  refine ⟨fun logs us h => ?_, hfailure, htokens, fun logs us h => h.of_resolved⟩
  rw [resolve_of_rounds h]
  exact ⟨rfl, rfl, rfl⟩

theorem resolve_resumed_after_group :
    Rounds [[.resolved 0 2 1.0]] [.opening, .literal "1", .closing, .opening, .literal ".", .closing]
        [.value 1.0, .opening, .literal ".", .closing] ∧
      (resolve [.value 1.0, .opening, .literal ".", .closing]).failure = some (.invalidNumber ".") ∧
      (resolve [.opening, .literal "1", .closing, .opening, .literal ".", .closing]).tokens =
        [.value 1.0, .opening, .literal ".", .closing] := by
  have hround : Rounds [[.resolved 0 2 1.0]] [.opening, .literal "1", .closing, .opening, .literal ".", .closing]
      [.value 1.0, .opening, .literal ".", .closing] := .round (by decide +kernel) (.refl _)
  obtain ⟨hfailure, htokens, -⟩ := (resolve_resumed _).1 _ _ hround
  exact ⟨hround, hfailure.trans (by decide +kernel), htokens.symm.trans (by decide +kernel)⟩

end Calculator
