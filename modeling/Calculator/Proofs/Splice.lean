import Calculator.Proofs.Nesting
import Calculator.Proofs.Sequence

namespace Calculator

namespace Nesting

open Outcome

variable {n m m' : Nesting} {t : Token} {ts us : List Token} {e : EvalError}

/-- A nesting that starts inside the innermost open group of another one. -/
def within (n m : Nesting) : Nesting := ⟨(n.append m.base).base, m.groups ++ (n.append m.base).groups⟩

theorem within_start (n : Nesting) : n.within start = n := by
  obtain ⟨base, _ | ⟨g, gs⟩⟩ := n <;> simp [within, start, append]

theorem within_flat (n : Nesting) (us : List Token) : n.within ⟨us, []⟩ = n.append us := rfl

theorem within_push (n m : Nesting) (t : Token) : n.within (m.push t) = (n.within m).push t := by
  obtain ⟨base, _ | ⟨g, gs⟩⟩ := m
  · change n.append (base ++ [t]) = (n.append base).append [t]
    rw [append_append]
  · rfl

theorem base_subset_push (n : Nesting) (t : Token) : n.base ⊆ (n.push t).base := by
  obtain ⟨base, _ | ⟨g, gs⟩⟩ := n
  · exact List.subset_append_left base [t]
  · exact List.Subset.refl base

theorem base_subset_of_step (h : n.step t = .ok m) : n.base ⊆ m.base := by
  rcases step_eq_ok h with ⟨-, rfl⟩ | ⟨-, rfl⟩ | ⟨g, gs, v, -, -, -, rfl⟩
  · exact List.Subset.refl n.base
  · exact n.base_subset_push t
  · exact base_subset_push ⟨n.base, gs⟩ (.value v)

theorem base_subset_of_read (h : n.read ts = .ok m) : n.base ⊆ m.base := by
  induction ts generalizing n with
  | nil =>
      cases h
      exact List.Subset.refl _
  | cons t ts ih =>
      obtain ⟨n', hs, h⟩ := bind_eq_ok.mp h
      exact List.Subset.trans (base_subset_of_step hs) (ih h)

/-- What lies below a nesting is not touched as long as no closing parenthesis is left without a partner. -/
theorem within_step (n : Nesting) (h : m.step t = .ok m') (hc : .closing ∉ m'.base) :
    (n.within m).step t = .ok (n.within m') := by
  cases t with
  | opening =>
      cases h
      rfl
  | operand | operator | blank =>
      cases h
      rw [within_push]
      rfl
  | closing =>
      obtain ⟨base, _ | ⟨g, gs⟩⟩ := m
      -- Such a parenthesis would stay in the base for good.
      · cases h
        exact absurd (List.mem_append_right base List.mem_cons_self) hc
      · change (reduce g).outcome.map _ = _ at h
        change (reduce g).outcome.map _ = _
        cases hv : (reduce g).outcome with
        | error e =>
            rw [hv] at h
            cases h
        | ok v =>
            rw [hv] at h
            cases h
            rw [within_push]
            rfl

theorem within_read (n : Nesting) (h : m.read ts = .ok m') (hc : .closing ∉ m'.base) :
    (n.within m).read ts = .ok (n.within m') := by
  induction ts generalizing m with
  | nil =>
      cases h
      rfl
  | cons t ts ih =>
      obtain ⟨k, hs, h⟩ := bind_eq_ok.mp h
      rw [read_cons, within_step n hs fun hk => hc (base_subset_of_read h hk)]
      exact ih h

theorem read_of_flat (h : start.read ts = .ok ⟨us, []⟩) (hu : Flat us) (n : Nesting) :
    n.read ts = .ok (n.append us) := by
  have hread := within_read n h (flat_iff.mp hu).2
  rwa [within_start, within_flat] at hread

theorem read_flat (hu : Flat us) (n : Nesting) : n.read us = .ok (n.append us) := by
  induction us generalizing n with
  | nil => exact congrArg Except.ok n.within_start.symm
  | cons u us ih =>
      obtain ⟨h, hu⟩ := List.forall_mem_cons.mp hu
      have hs : n.step u = .ok (n.push u) := by
        cases u with
        | opening | closing => cases h
        | operand | operator | blank => rfl
      rw [read_cons, hs]
      change (n.push u).read us = _
      rw [ih hu, push, append_append]
      rfl

theorem read_spliced (h : start.read ts = .ok ⟨us, []⟩) (hu : Flat us) (pre post : List Token) :
    start.read (pre ++ (ts ++ post)) = start.read (pre ++ (us ++ post)) := by
  rw [read_append, read_append]
  refine congrArg _ (funext fun n => ?_)
  rw [read_append, read_append, read_of_flat h hu, read_flat hu]

theorem result_spliced {pre : List Token} (hpre : start.read pre = .ok n) (h : start.read ts = .ok ⟨us, []⟩)
    (hu : Flat us) (post : List Token) :
    (resolve (pre ++ (ts ++ post))).result = (resolve (pre ++ (us ++ post))).result := by
  have hresult {vs : List Token} (hvs : n.read vs = .ok (n.append us)) :
      (resolve (pre ++ (vs ++ post))).result = (resolve ((n.append us).tokens ++ post)).result := by
    have hread : start.read (pre ++ vs) = .ok (n.append us) := by
      rw [read_append, hpre]
      exact hvs
    have hresolve := resolve_read proper_start hread post
    rwa [List.append_assoc] at hresolve
  rw [hresult (read_of_flat h hu n), hresult (read_flat hu n)]

theorem sequential_of_read (h : start.read ts = .error e) : e.Sequential := by
  obtain ⟨_, _, _, m, _, _, he⟩ := read_eq_error h
  obtain ⟨g, _, _, _, hg⟩ := step_eq_error he
  exact sequential_of_reduce hg

theorem read_of_result (h : (resolve ts).result = (us, none)) (hu : Flat us) : start.read ts = .ok ⟨us, []⟩ := by
  cases hread : start.read ts with
  | error e =>
      have hresult := result_append_of_error hread []
      rw [List.append_nil, h] at hresult
      cases hresult
  | ok m =>
      rw [result_of_read hread] at h
      obtain ⟨rfl, -⟩ := Prod.mk.inj h
      obtain ⟨base, groups⟩ := m
      obtain ⟨hg, -⟩ := (flat_tokens (proper_start.read hread)).mp hu
      cases hg
      simp [tokens]

theorem read_error_iff (he : e ≠ .unbalancedParentheses) :
    (resolve ts).failure = some e ↔ start.read ts = .error e := by
  cases hread : start.read ts with
  | error e' =>
      have hresult := congrArg Prod.snd (result_append_of_error hread [])
      rw [List.append_nil] at hresult
      rw [show (resolve ts).failure = _ from hresult]
      simp
  | ok m =>
      have hresult := congrArg Prod.snd (result_of_read hread)
      rw [show (resolve ts).failure = _ from hresult]
      refine ⟨fun h => ?_, nofun⟩
      split at h
      · cases h
        exact absurd rfl he
      · cases h

def computed (n : Nesting) : Nesting := ⟨n.base.map Token.computed, n.groups.map (List.map Token.computed)⟩

theorem computed_push (n : Nesting) (t : Token) : (n.push t).computed = n.computed.push t.computed := by
  obtain ⟨base, _ | ⟨g, gs⟩⟩ := n <;> simp [push, append, computed]

theorem step_computed (n : Nesting) (t : Token) : n.computed.step t.computed = (n.step t).map computed := by
  cases t with
  | opening => rfl
  | operand | operator | blank => exact congrArg Except.ok (n.computed_push _).symm
  | closing =>
      obtain ⟨base, _ | ⟨g, gs⟩⟩ := n
      · exact congrArg Except.ok (computed_push ⟨base, []⟩ .closing).symm
      · change (reduce (g.map Token.computed)).outcome.map _ = ((reduce g).outcome.map _).map _
        rw [reduce_computed]
        cases (reduce g).outcome with
        | error e => rfl
        | ok v => exact congrArg Except.ok (computed_push ⟨base, gs⟩ (.value v)).symm

theorem read_computed (n : Nesting) (ts : List Token) :
    n.computed.read (ts.map Token.computed) = (n.read ts).map computed := by
  induction ts generalizing n with
  | nil => rfl
  | cons t ts ih =>
      rw [List.map_cons, read_cons, read_cons, step_computed]
      cases n.step t with
      | error e => rfl
      | ok m => exact ih m

theorem finish_computed (n : Nesting) : n.computed.finish = n.finish := by
  have hc : .closing ∈ n.base.map Token.computed ↔ .closing ∈ n.base := by
    rw [List.mem_map]
    refine ⟨?_, fun h => ⟨.closing, h, rfl⟩⟩
    rintro ⟨t, ht, hclosing⟩
    cases t with
    | closing => exact ht
    | operand | operator | opening | blank => cases hclosing
  have hg : n.groups.map (List.map Token.computed) = [] ↔ n.groups = [] := List.map_eq_nil_iff
  by_cases h : n.groups = [] ∧ .closing ∉ n.base
  · rw [finish, finish, if_pos h, if_pos ⟨hg.mpr h.1, mt hc.mp h.2⟩]
    exact congrArg Traced.outcome (reduce_computed n.base)
  · rw [finish, finish, if_neg h, if_neg fun h' => h ⟨hg.mp h'.1, mt hc.mpr h'.2⟩]

end Nesting

def grouped (ts : List Token) : List Token := .opening :: (ts ++ [.closing])

/-- What resolving a sequence, looking for parentheses that are left over and reducing come to. -/
def Evaluation.outcomeOf (e : Evaluation) (ts : List Token) : Except EvalError Float :=
  { e with tokens := ts }.settle.outcome

theorem Evaluation.outcomeOf_eq (e : Evaluation) (ts : List Token) :
    e.outcomeOf ts = Nesting.start.read ts >>= Nesting.finish := by
  rw [outcomeOf, settle_outcome, Nesting.settled_resolve]

theorem Evaluation.outcomeOf_computed (e : Evaluation) (ts : List Token) :
    e.outcomeOf (ts.map Token.computed) = e.outcomeOf ts := by
  rw [outcomeOf_eq, outcomeOf_eq]
  change Nesting.start.computed.read (ts.map Token.computed) >>= Nesting.finish = _
  rw [Nesting.read_computed]
  cases Nesting.start.read ts with
  | error error => rfl
  | ok m => exact m.finish_computed

theorem reduce_operand {x : Operand} {v : Float} (h : x.read = .ok v) : (reduce [.operand x]).outcome = .ok v := by
  have hterms : Term.ofTokens [.operand x] = .ok (Chain.mk v []).terms := by
    rw [Term.ofTokens, Term.ofToken, h]
    rfl
  rw [reduce_chain hterms]
  rfl

theorem Nesting.read_grouped_of_read {g us : List Token} (h : ∀ n : Nesting, n.read g = .ok (n.append us)) (n : Nesting) :
    n.read (grouped g) = (reduce us).outcome.map fun v => n.append [.value v] := by
  have hopened : n.read (grouped g) = Nesting.read ⟨n.base, [] :: n.groups⟩ (g ++ [.closing]) := rfl
  rw [hopened, read_append, h]
  change (reduce us).outcome.map _ >>= pure = _
  rw [bind_pure]
  rfl

theorem read_grouped_flat {ts : List Token} {v : Float} (hts : Flat ts) (h : (reduce ts).outcome = .ok v) :
    Nesting.start.read (grouped ts) = .ok ⟨[.value v], []⟩ := by
  rw [Nesting.read_grouped_of_read (Nesting.read_flat hts), h]
  rfl

theorem read_grouped {x : Operand} {v : Float} (h : x.read = .ok v) :
    Nesting.start.read (grouped [.operand x]) = .ok ⟨[.value v], []⟩ :=
  read_grouped_flat (flat_singleton rfl) (reduce_operand h)

/-- The value of a group may stand for it in any sequence. The rounds end in the same way and leave the same, but
when a group before it fails they leave what follows untouched. A number may stand for its value, in parentheses
or not. -/
theorem resolve_spliced :
    (∀ (g : List Token) (v : Float), (resolve (grouped g)).result = ([.value v], none) → ∀ pre post : List Token,
      (resolve (pre ++ (grouped g ++ post))).failure = (resolve (pre ++ .value v :: post)).failure ∧
      ((∀ error, (resolve pre).failure = some error → error = .unbalancedParentheses) →
        (resolve (pre ++ (grouped g ++ post))).tokens = (resolve (pre ++ .value v :: post)).tokens) ∧
      (∀ error, (resolve pre).failure = some error → error ≠ .unbalancedParentheses → ∀ us,
        (resolve (pre ++ us)).result = ((resolve pre).tokens ++ us, some error)) ∧
      ∀ e : Evaluation, e.outcomeOf (pre ++ (grouped g ++ post)) = e.outcomeOf (pre ++ .value v :: post)) ∧
    ∀ (x : Operand) (v : Float), x.read = .ok v → ∀ (pre post : List Token) (e : Evaluation),
      e.outcomeOf (pre ++ .operand x :: post) = e.outcomeOf (pre ++ .value v :: post) ∧
      e.outcomeOf (pre ++ (grouped [.operand x] ++ post)) = e.outcomeOf (pre ++ .value v :: post) := by
  have hflat (v : Float) : Flat [.value v] := List.forall_mem_singleton.mpr rfl
  refine ⟨fun g v hg pre post => ?_, fun x v hx pre post e => ⟨?_, ?_⟩⟩
  · have hread := Nesting.read_of_result hg (hflat v)
    refine ⟨?_, fun hpre => ?_, fun error herror hne us => ?_, fun e => ?_⟩
    -- A group of `pre` that fails ends both runs, else both come to the same nesting behind the value.
    · cases hpre : Nesting.start.read pre with
      | ok n => exact congrArg Prod.snd (Nesting.result_spliced hpre hread (hflat v) post)
      | error error =>
          have hfailure (us : List Token) : (resolve (pre ++ us)).failure = some error :=
            congrArg Prod.snd (Nesting.result_append_of_error hpre us)
          rw [hfailure, hfailure]
    · cases h : Nesting.start.read pre with
      | ok n => exact congrArg Prod.fst (Nesting.result_spliced h hread (hflat v) post)
      | error error =>
          have hne : error ≠ .unbalancedParentheses := by
            rintro rfl
            exact Nesting.sequential_of_read h
          exact absurd (hpre error ((Nesting.read_error_iff hne).mpr h)) hne
    · exact Nesting.result_append_of_error ((Nesting.read_error_iff hne).mp herror) us
    · rw [e.outcomeOf_eq, e.outcomeOf_eq, Nesting.read_spliced hread (hflat v)]
      rfl
  · have hcomputed : (pre ++ .operand x :: post).map Token.computed = (pre ++ .value v :: post).map Token.computed := by
      rw [List.map_append, List.map_cons, Token.computed, x.computed_of_read hx, List.map_append]
      rfl
    rw [← e.outcomeOf_computed, hcomputed, e.outcomeOf_computed]
  · rw [e.outcomeOf_eq, e.outcomeOf_eq, Nesting.read_spliced (read_grouped hx) (hflat v)]
    rfl

theorem resolve_spliced_after_closing :
    (resolve [.closing, .opening, .literal "2", .closing]).tokens = (resolve [.closing, .value 2.0]).tokens := by
  have hpre : (resolve [.closing]).failure = none := by decide +kernel
  refine (resolve_spliced.1 [.literal "2"] 2.0 (by decide +kernel) [.closing] []).2.1 fun error h => ?_
  rw [hpre] at h
  cases h

theorem resolve_spliced_after_failure :
    (resolve (grouped [.literal "2"])).result = ([.value 2.0], none) ∧
      (resolve ([.opening, .closing] ++ (grouped [.literal "2"] ++ []))).tokens ≠
        (resolve ([.opening, .closing] ++ .value 2.0 :: [])).tokens := by
  decide +kernel

end Calculator
