import Calculator.Evaluation
import Calculator.Proofs.Pass

namespace Calculator

def Event.lexeme? : Event → Option Lexeme
  | token x => some x
  | _ => none

def Event.move? : Event → Option (Stage × Stage)
  | moved source target _ => some (source, target)
  | _ => none

theorem Traced.forall_mem_bind {α β : Type} {P : Event → Prop} {x : Traced α} {f : α → Traced β}
    (h : ∀ e ∈ x.events, P e) (hf : ∀ a, ∀ e ∈ (f a).events, P e) : ∀ e ∈ (x >>= f).events, P e := by
  cases hx : x.outcome with
  | error error => rwa [events_bind_error hx]
  | ok a =>
      rw [events_bind_ok hx]
      exact List.forall_mem_append.mpr ⟨h, hf a⟩

/-- Nothing has been logged but uses of operators, each with the value that the operator gives. -/
def Combinations (events : List Event) : Prop :=
  ∀ e ∈ events, ∃ c : Combination, e = .combined c ∧ c.operator.apply c.left c.right = .ok c.value

theorem Combinations.forall_mem {es : List Event} {P : Event → Prop} (h : Combinations es) (hP : ∀ c, P (.combined c)) :
    ∀ e ∈ es, P e := by
  intro e he
  obtain ⟨c, rfl, -⟩ := h e he
  exact hP c

theorem combinations_run (level : Precedence) (p : Pass) : Combinations (p.run level).events := by
  fun_induction Pass.run level p with
  | case1 p hs => exact List.forall_mem_nil _
  | case2 p error hs => exact List.forall_mem_nil _
  | case3 p q hs ih => exact ih
  | case4 p c q hs ih =>
      obtain ⟨rest, -, -, happly, -⟩ := Pass.step_eq_combined hs
      exact Traced.forall_mem_bind (List.forall_mem_singleton.mpr ⟨c, rfl, happly⟩) fun _ => ih

theorem combinations_reduce (ts : List Token) : Combinations (reduce ts).events := by
  have hlift {α : Type} (x : Except EvalError α) : Combinations (Traced.ofExcept x).events := nofun
  refine Traced.forall_mem_bind (hlift _) fun terms => Traced.forall_mem_bind (hlift _) fun _ => ?_
  refine Traced.forall_mem_bind ?_ fun sums => hlift _
  refine Traced.forall_mem_bind (combinations_run _ _) fun products => ?_
  exact Traced.forall_mem_bind (combinations_run _ _) fun sums => nofun

/-- Nothing has been logged but what operators and groups came to. -/
def Calculated (events : List Event) : Prop := ∀ e ∈ events, e.lexeme? = none ∧ e.move? = none

namespace Calculated

variable {es fs : List Event}

theorem append (h : Calculated es) (h' : Calculated fs) : Calculated (es ++ fs) := List.forall_mem_append.mpr ⟨h, h'⟩

theorem moves (h : Calculated es) : es.filterMap Event.move? = [] :=
  List.filterMap_eq_nil_iff.mpr fun e he => (h e he).2

end Calculated

theorem calculated_reduce (ts : List Token) : Calculated (reduce ts).events :=
  (combinations_reduce ts).forall_mem fun _ => ⟨rfl, rfl⟩

def Round.events : Round → List Event
  | settled => []
  | failed events _ | replaced events _ => events

theorem calculated_round (ts : List Token) : Calculated (Round.of ts).events := by
  unfold Round.of
  split
  · split
    · exact nofun
    · next g _ =>
        dsimp only
        split
        · exact calculated_reduce g.inside
        · exact (calculated_reduce g.inside).append (List.forall_mem_singleton.mpr ⟨rfl, rfl⟩)
  · exact nofun

theorem calculated_resolve (ts : List Token) : Calculated (resolve ts).events := by
  fun_induction resolve ts with
  | case1 ts hs => exact nofun
  | case2 ts events error hs =>
      have hround := calculated_round ts
      rwa [hs] at hround
  | case3 ts events next hs ih =>
      have hround := calculated_round ts
      rw [hs] at hround
      exact hround.append ih

def Tokenless (events : List Event) : Prop := ∀ e ∈ events, e.lexeme? = none

theorem Tokenless.append {es fs : List Event} (h : Tokenless es) (h' : Tokenless fs) : Tokenless (es ++ fs) :=
  List.forall_mem_append.mpr ⟨h, h'⟩

theorem Tokenless.cons {e : Event} {es : List Event} (he : e.lexeme? = none) (h : Tokenless es) : Tokenless (e :: es) :=
  List.forall_mem_cons.mpr ⟨he, h⟩

theorem Tokenless.filterMap {es : List Event} (h : Tokenless es) : es.filterMap Event.lexeme? = [] :=
  List.filterMap_eq_nil_iff.mpr h

theorem Calculated.tokenless {es : List Event} (h : Calculated es) : Tokenless es := fun e he => (h e he).1

namespace Evaluation

theorem tokenless_finish (e : Evaluation) : Tokenless e.finish.events := by
  unfold finish
  dsimp only
  split
  · exact (calculated_reduce e.tokens).tokenless
  · exact (calculated_reduce e.tokens).tokenless.append (List.forall_mem_singleton.mpr rfl)

theorem tokenless_settle (e : Evaluation) : Tokenless e.settle.events := by
  unfold settle
  dsimp only
  split
  · exact (calculated_resolve e.tokens).tokenless
  · split
    · exact (calculated_resolve e.tokens).tokenless
    · exact (calculated_resolve e.tokens).tokenless.append (.cons rfl (tokenless_finish _))

theorem events_run (e : Evaluation) :
    ∃ rest, Tokenless rest ∧ e.run.events = (Scan.ofString e.source).lexemes.map .token ++ rest := by
  unfold run
  dsimp only
  split
  · exact ⟨[], nofun, (List.append_nil _).symm⟩
  · exact ⟨_, .cons rfl (.cons rfl (tokenless_settle _)), rfl⟩

end Evaluation

theorem events_evaluateTraced (s : String) :
    ∃ rest, Tokenless rest ∧ (evaluateTraced s).events = (Scan.ofString s).lexemes.map .token ++ rest := by
  obtain ⟨rest, hrest, hevents⟩ := (Evaluation.new s).events_run
  unfold evaluateTraced
  dsimp only
  split
  · exact ⟨rest, hrest, hevents⟩
  · exact ⟨rest ++ [_], hrest.append (List.forall_mem_singleton.mpr rfl), by rw [hevents, List.append_assoc]; rfl⟩

/-- The tokens in the log are those of the scan, however far the evaluation comes. -/
theorem lexemes_evaluateTraced (s : String) :
    (evaluateTraced s).events.filterMap Event.lexeme? = (Scan.ofString s).lexemes := by
  obtain ⟨rest, hrest, hevents⟩ := events_evaluateTraced s
  rw [hevents, List.filterMap_append, hrest.filterMap, List.append_nil, List.filterMap_map]
  exact List.filterMap_some

end Calculator
