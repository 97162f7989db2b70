import Calculator.Proofs.Collapse
import Calculator.Proofs.Frames
import Calculator.Proofs.Log

namespace Calculator

/-- The moves of an evaluation that is at a stage when it is run and comes to a value. -/
def Stage.route (first : Stage) : List (Stage × Stage) :=
  [(first, tokenized), (tokenized, resolvingParentheses), (resolvingParentheses, flat), (flat, reduced)]

theorem Stage.compare_of_mem_route (first : Stage) :
    ∀ move ∈ first.route.tail, compare move.1 move.2 = .lt := by
  intro move hm
  simp only [route, List.tail_cons, List.mem_cons, List.not_mem_nil, or_false] at hm
  rcases hm with rfl | rfl | rfl <;> rfl

def Run.moves (r : Run) : List (Stage × Stage) := r.events.filterMap Event.move?

namespace Evaluation

variable {e : Evaluation} {ts us : List Token} {error : EvalError} {v : Float} {r : Run} {n : Nat}

theorem finish_of_ok (h : (reduce e.tokens).outcome = .ok v) :
    e.finish.evaluation = { e with stage := .reduced } ∧ e.finish.moves = [(e.stage, .reduced)] := by
  unfold finish
  dsimp only
  rw [h]
  refine ⟨rfl, ?_⟩
  rw [Run.moves, List.filterMap_append, (calculated_reduce e.tokens).moves]
  rfl

theorem finish_of_error (h : (reduce e.tokens).outcome = .error error) :
    e.finish.evaluation = e ∧ e.finish.moves = [] := by
  unfold finish
  dsimp only
  rw [h]
  exact ⟨rfl, (calculated_reduce e.tokens).moves⟩

theorem settle_of_collapses (h : Collapses e.tokens us) :
    e.settle.evaluation = (finish ⟨e.source, .flat, us⟩).evaluation ∧
      e.settle.moves = (e.stage, .flat) :: (finish ⟨e.source, .flat, us⟩).moves := by
  have hresult := Nesting.result_of_read (Nesting.collapses_iff_read.mp h).1
  have htokens : (resolve e.tokens).tokens = us := (congrArg Prod.fst hresult).trans (List.append_nil us)
  have hfailure : (resolve e.tokens).failure = none := congrArg Prod.snd hresult
  unfold settle
  dsimp only
  rw [hfailure, htokens, if_neg (mt any_isParenthesis.mp (not_not_intro h.flat))]
  refine ⟨rfl, ?_⟩
  rw [Run.moves, List.filterMap_append, (calculated_resolve e.tokens).moves]
  rfl

theorem settle_of_not_collapses (h : ¬ ∃ us, Collapses e.tokens us) :
    e.settle.evaluation.stage = e.stage ∧ e.settle.moves = [] := by
  unfold settle
  dsimp only
  cases hfailure : (resolve e.tokens).failure with
  | some error => exact ⟨rfl, (calculated_resolve e.tokens).moves⟩
  | none =>
      dsimp only
      split
      · exact ⟨rfl, (calculated_resolve e.tokens).moves⟩
      · next hany =>
          have hflat : Flat (resolve e.tokens).tokens := not_not.mp (mt any_isParenthesis.mpr hany)
          have hread := Nesting.read_of_result (Prod.ext rfl hfailure) hflat
          exact absurd ⟨_, Nesting.collapses_iff_read.mpr ⟨hread, (flat_iff.mp hflat).2⟩⟩ h

theorem source_finish (e : Evaluation) : e.finish.evaluation.source = e.source := by
  unfold finish
  dsimp only
  split <;> rfl

theorem source_settle (e : Evaluation) : e.settle.evaluation.source = e.source := by
  unfold settle
  dsimp only
  split
  · rfl
  · split
    · rfl
    · exact source_finish _

theorem moves_tokens (xs : List Lexeme) : (xs.map Event.token).filterMap Event.move? = [] := by
  rw [List.filterMap_map, List.filterMap_eq_nil_iff]
  exact fun _ _ => rfl

theorem run_of_stray (h : tokenize e.source = .error error) : e.run.evaluation = e ∧ e.run.moves = [] := by
  unfold run
  dsimp only
  rw [show (Scan.ofString e.source).outcome = _ from h]
  exact ⟨rfl, moves_tokens _⟩

theorem run_of_tokens (h : tokenize e.source = .ok ts) :
    e.run.evaluation = (settle ⟨e.source, .resolvingParentheses, ts⟩).evaluation ∧
      e.run.moves = (e.stage, .tokenized) :: (.tokenized, .resolvingParentheses) ::
        (settle ⟨e.source, .resolvingParentheses, ts⟩).moves := by
  unfold run
  dsimp only
  rw [show (Scan.ofString e.source).outcome = _ from h]
  refine ⟨rfl, ?_⟩
  rw [Run.moves, List.filterMap_append, moves_tokens]
  rfl

/-- Where a run ends, and why it does not come farther. -/
inductive Ends (e : Evaluation) (r : Run) : Prop
  | scanning {c : Char} {p : Nat} (stray : tokenize e.source = .error (.invalidCharacter c p))
      (left : r.evaluation = e) (moves : r.moves = []) (outcome : r.outcome = .error (.invalidCharacter c p))
  | resolving {ts : List Token} {error : EvalError} (scanned : tokenize e.source = .ok ts)
      (stuck : ¬ ∃ us, Collapses ts us) (stage : r.evaluation.stage = .resolvingParentheses)
      (moves : r.moves = e.stage.route.take 2) (outcome : r.outcome = .error error)
      (cause : error.Sequential ∨ error = .unbalancedParentheses)
  | reducing {ts us : List Token} {error : EvalError} (scanned : tokenize e.source = .ok ts)
      (collapses : Collapses ts us) (stuck : (reduce us).outcome = .error error)
      (stage : r.evaluation.stage = .flat) (moves : r.moves = e.stage.route.take 3) (outcome : r.outcome = .error error)
  | reduced {ts us : List Token} {v : Float} (scanned : tokenize e.source = .ok ts)
      (collapses : Collapses ts us) (value : (reduce us).outcome = .ok v)
      (stage : r.evaluation.stage = .reduced) (moves : r.moves = e.stage.route) (outcome : r.outcome = .ok v)

theorem outcome_of_collapses (h : tokenize e.source = .ok ts) (hc : Collapses ts us) :
    e.run.outcome = (reduce us).outcome := by
  obtain ⟨hread, hclosing⟩ := Nesting.collapses_iff_read.mp hc
  rw [run_outcome, h]
  change Nesting.start.read ts >>= Nesting.finish = _
  rw [hread]
  exact if_pos ⟨rfl, hclosing⟩

theorem outcome_of_not_collapses (h : tokenize e.source = .ok ts) (hc : ¬ ∃ us, Collapses ts us) :
    ∃ error, e.run.outcome = .error error ∧ (error.Sequential ∨ error = .unbalancedParentheses) := by
  rw [run_outcome, h]
  change ∃ error, Nesting.start.read ts >>= Nesting.finish = _ ∧ _
  cases hread : Nesting.start.read ts with
  | error error => exact ⟨error, rfl, .inl (Nesting.sequential_of_read hread)⟩
  | ok m =>
      refine ⟨.unbalancedParentheses, if_neg ?_, .inr rfl⟩
      obtain ⟨base, groups⟩ := m
      rintro ⟨hg, hclosing⟩
      cases hg
      exact hc ⟨base, Nesting.collapses_iff_read.mpr ⟨hread, hclosing⟩⟩

theorem ends_of_stray (h : tokenize e.source = .error error) : Ends e e.run := by
  obtain ⟨c, p, rfl⟩ := invalidCharacter_of_tokenize h
  obtain ⟨left, moves⟩ := run_of_stray h
  refine .scanning h left moves ?_
  rw [run_outcome, h]
  rfl

theorem ends_of_collapses (h : tokenize e.source = .ok ts) (hc : Collapses ts us) : Ends e e.run := by
  obtain ⟨hevaluation, hmoves⟩ := run_of_tokens h
  obtain ⟨hsettled, hmoved⟩ := settle_of_collapses (e := ⟨e.source, .resolvingParentheses, ts⟩) hc
  rw [hsettled] at hevaluation
  rw [hmoved] at hmoves
  have houtcome := outcome_of_collapses h hc
  cases hv : (reduce us).outcome with
  | error error =>
      obtain ⟨hfinished, hlast⟩ := finish_of_error (e := ⟨e.source, .flat, us⟩) hv
      rw [hfinished] at hevaluation
      rw [hlast] at hmoves
      exact .reducing h hc hv (congrArg stage hevaluation) hmoves (houtcome.trans hv)
  | ok v =>
      obtain ⟨hfinished, hlast⟩ := finish_of_ok (e := ⟨e.source, .flat, us⟩) hv
      rw [hfinished] at hevaluation
      rw [hlast] at hmoves
      exact .reduced h hc hv (congrArg stage hevaluation) hmoves (houtcome.trans hv)

theorem ends_of_not_collapses (h : tokenize e.source = .ok ts) (hc : ¬ ∃ us, Collapses ts us) : Ends e e.run := by
  obtain ⟨hevaluation, hmoves⟩ := run_of_tokens h
  obtain ⟨hstage, hmoved⟩ := settle_of_not_collapses (e := ⟨e.source, .resolvingParentheses, ts⟩) hc
  rw [hmoved] at hmoves
  obtain ⟨error, houtcome, cause⟩ := outcome_of_not_collapses h hc
  exact .resolving h hc ((congrArg stage hevaluation).trans hstage) hmoves houtcome cause

theorem ends_run (e : Evaluation) : Ends e e.run := by
  cases htokens : tokenize e.source with
  | error error => exact ends_of_stray htokens
  | ok ts =>
      by_cases hc : ∃ us, Collapses ts us
      · obtain ⟨us, hc⟩ := hc
        exact ends_of_collapses htokens hc
      · exact ends_of_not_collapses htokens hc

namespace Ends

theorem moves_prefix (h : Ends e r) : r.moves <+: e.stage.route := by
  cases h with
  | scanning _ _ moves _ =>
      rw [moves]
      exact List.nil_prefix
  | resolving _ _ _ moves _ _ =>
      rw [moves]
      exact List.take_prefix 2 _
  | reducing _ _ _ _ moves _ =>
      rw [moves]
      exact List.take_prefix 3 _
  | reduced _ _ _ _ moves _ =>
      rw [moves]

theorem forward (h : Ends e r) : ∀ move ∈ r.moves.tail, compare move.1 move.2 = .lt := by
  intro move hm
  obtain ⟨rest, hrest⟩ := h.moves_prefix
  apply e.stage.compare_of_mem_route
  rw [← hrest]
  cases hmoves : r.moves with
  | nil =>
      rw [hmoves] at hm
      cases hm
  | cons first later =>
      rw [hmoves] at hm
      exact List.mem_append_left rest hm

variable (h : Ends e r) (hstart : e.stage = .start)
include h hstart

theorem start_iff : r.evaluation.stage = .start ↔ ∃ c p, r.outcome = .error (.invalidCharacter c p) := by
  cases h with
  | scanning _ left _ outcome => simp [left, hstart, outcome]
  | resolving _ _ stage _ outcome cause =>
      simp only [stage, outcome, reduceCtorEq, false_iff]
      rintro ⟨c, p, hinvalid⟩
      cases hinvalid
      simp [EvalError.Sequential] at cause
  | reducing _ _ stuck stage _ outcome =>
      simp only [stage, outcome, reduceCtorEq, false_iff]
      rintro ⟨c, p, hinvalid⟩
      cases hinvalid
      exact sequential_of_reduce stuck
  | reduced _ _ _ stage _ outcome => simp [stage, outcome]

theorem resolving_iff :
    r.evaluation.stage = .resolvingParentheses ↔
      ∃ ts, tokenize e.source = .ok ts ∧ (GroupFails ts ∨ ¬ Balanced .opening .closing ts) := by
  have hstuck (ts : List Token) : GroupFails ts ∨ ¬ Balanced .opening .closing ts ↔ ¬ ∃ us, Collapses ts us := by
    rw [exists_collapses_iff, not_and_or, not_not, or_comm]
  simp only [hstuck]
  cases h with
  | scanning stray left => simp [stray, left, hstart]
  | resolving scanned stuck stage => exact iff_of_true stage ⟨_, scanned, stuck⟩
  | reducing scanned collapses _ stage | reduced scanned collapses _ stage =>
      refine iff_of_false (by simp [stage]) ?_
      rintro ⟨ts, hts, hstuck⟩
      rw [scanned] at hts
      cases hts
      exact hstuck ⟨_, collapses⟩

theorem flat_iff :
    r.evaluation.stage = .flat ↔
      ∃ ts us error, tokenize e.source = .ok ts ∧ Collapses ts us ∧ (reduce us).outcome = .error error := by
  cases h with
  | scanning stray left => simp [stray, left, hstart]
  | resolving scanned stuck stage =>
      refine iff_of_false (by simp [stage]) ?_
      rintro ⟨ts, us, error, hts, hc, -⟩
      rw [scanned] at hts
      cases hts
      exact stuck ⟨us, hc⟩
  | reducing scanned collapses stuck stage => exact iff_of_true stage ⟨_, _, _, scanned, collapses, stuck⟩
  | reduced scanned collapses value stage =>
      refine iff_of_false (by simp [stage]) ?_
      rintro ⟨ts, us, error, hts, hc, herror⟩
      rw [scanned] at hts
      cases hts
      cases collapses.unique hc
      rw [value] at herror
      cases herror

theorem reduced_iff : r.evaluation.stage = .reduced ↔ ∃ v, r.outcome = .ok v := by
  cases h with
  | scanning _ left _ outcome => simp [left, hstart, outcome]
  | resolving _ _ stage _ outcome => simp [stage, outcome]
  | reducing _ _ _ stage _ outcome | reduced _ _ _ stage _ outcome => simp [stage, outcome]

theorem ne_tokenized : r.evaluation.stage ≠ .tokenized := by
  cases h with
  | scanning _ left => simp [left, hstart]
  | resolving _ _ stage | reducing _ _ _ stage | reduced _ _ _ stage => simp [stage]

theorem balanced_of_flat (hflat : r.evaluation.stage = .flat) : r.outcome ≠ .error .unbalancedParentheses := by
  cases h with
  | scanning _ left => simp [left, hstart] at hflat
  | resolving _ _ stage => simp [stage] at hflat
  | reducing _ _ stuck _ _ outcome =>
      rw [outcome]
      rintro ⟨⟩
      exact sequential_of_reduce stuck
  | reduced _ _ _ stage => simp [stage] at hflat

end Ends

theorem source_run (e : Evaluation) : e.run.evaluation.source = e.source := by
  cases htokens : tokenize e.source with
  | error error => rw [(run_of_stray htokens).1]
  | ok ts => rw [(run_of_tokens htokens).1, source_settle]

theorem run_run (e : Evaluation) : e.run.evaluation.run.evaluation = e.run.evaluation := by
  cases htokens : tokenize e.source with
  | error error =>
      have hleft := (run_of_stray htokens).1
      rw [hleft, hleft]
  | ok ts =>
      have hagain : tokenize e.run.evaluation.source = .ok ts := by rw [source_run, htokens]
      rw [(run_of_tokens hagain).1, source_run, (run_of_tokens htokens).1]

theorem length_runs (e : Evaluation) (n : Nat) : (e.runs n).length = n := by
  induction n generalizing e with
  | zero => rfl
  | succ n ih => exact congrArg Nat.succ (ih e.run.evaluation)

theorem of_mem_runs (h : r ∈ e.runs n) :
    r.outcome = e.run.outcome ∧ r.evaluation = e.run.evaluation ∧
      ∀ move ∈ r.moves.tail, compare move.1 move.2 = .lt := by
  induction n generalizing e with
  | zero => cases h
  | succ n ih =>
      rcases List.mem_cons.mp h with rfl | h
      · exact ⟨rfl, rfl, (ends_run e).forward⟩
      · obtain ⟨houtcome, hevaluation, hforward⟩ := ih h
        refine ⟨?_, hevaluation.trans e.run_run, hforward⟩
        rw [houtcome, run_outcome, run_outcome, source_run]

/-- Every run of an evaluation comes to the value or the error of the source and leaves what the first one left. The
stage tells where it ended: no other stage is left behind, and each of these for one reason only. -/
theorem run_repeatedly (s : String) (n : Nat) :
    ((new s).runs n).length = n ∧ (new s).run.moves <+: Stage.start.route ∧
      ∀ r ∈ (new s).runs n,
        r.outcome = evaluate? s ∧ r.evaluation = (new s).run.evaluation ∧
        (r.evaluation.stage = .start ↔ ∃ c p, r.outcome = .error (.invalidCharacter c p)) ∧
        (r.evaluation.stage = .resolvingParentheses ↔
          ∃ ts, tokenize s = .ok ts ∧ (GroupFails ts ∨ ¬ Balanced .opening .closing ts)) ∧
        (r.evaluation.stage = .flat ↔
          ∃ ts us e, tokenize s = .ok ts ∧ Collapses ts us ∧ (reduce us).outcome = .error e) ∧
        (r.evaluation.stage = .reduced ↔ ∃ v, r.outcome = .ok v) ∧
        r.evaluation.stage ≠ .tokenized ∧
        (r.evaluation.stage = .flat → r.outcome ≠ .error .unbalancedParentheses) ∧
        ∀ move ∈ r.moves.tail, compare move.1 move.2 = .lt := by
  have hends := ends_run (new s)
  have hstart : (new s).stage = .start := rfl
  refine ⟨length_runs _ n, hends.moves_prefix, fun r hr => ?_⟩
  obtain ⟨houtcome, hevaluation, hforward⟩ := of_mem_runs hr
  rw [houtcome, hevaluation]
  exact ⟨(evaluate?_eq_run s).symm, rfl, hends.start_iff hstart, hends.resolving_iff hstart, hends.flat_iff hstart,
    hends.reduced_iff hstart, hends.ne_tokenized hstart, hends.balanced_of_flat hstart, hforward⟩

theorem run_twice_unclosed :
    (new "2*(1+2").run.evaluation.run.outcome = .error .unbalancedParentheses ∧
      (new "2*(1+2").run.evaluation.run.evaluation.stage = .resolvingParentheses ∧
      ∀ move ∈ (new "2*(1+2").run.evaluation.run.moves.tail, compare move.1 move.2 = .lt := by
  have hmem : (new "2*(1+2").run.evaluation.run ∈ (new "2*(1+2").runs 2 := by simp [runs]
  obtain ⟨houtcome, -, -, hresolving, -, -, -, -, hforward⟩ := (run_repeatedly "2*(1+2" 2).2.2 _ hmem
  have htokens : tokenize "2*(1+2" =
      .ok [.literal "2", .operator .multiply, .opening, .literal "1", .operator .add, .literal "2"] := by decide +kernel
  exact ⟨houtcome.trans (by decide +kernel), hresolving.mpr ⟨_, htokens, .inr (by decide)⟩, hforward⟩

end Evaluation

end Calculator
