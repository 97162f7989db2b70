import Calculator.Evaluation
import Calculator.Proofs.Outcome
import Calculator.Proofs.Unmatched

namespace Calculator

def Resolution.result (r : Resolution) : List Token × Option EvalError := (r.tokens, r.failure)

/-- What becomes of the result of a resolution: a parenthesis that is left over is an error. -/
def settled : List Token × Option EvalError → Except EvalError Float
  | (_, some error) => .error error
  | (ts, none) => if Flat ts then (reduce ts).outcome else .error .unbalancedParentheses

/-- The groups that are open, the innermost first, and what stands before the outermost of them. A closing
parenthesis without a partner stays there. -/
structure Nesting where
  base : List Token
  groups : List (List Token)

namespace Nesting

open Outcome

def start : Nesting := ⟨[], []⟩

def tokens (n : Nesting) : List Token := n.base ++ n.groups.reverse.flatMap (.opening :: ·)

def append (us : List Token) : Nesting → Nesting
  | ⟨base, []⟩ => ⟨base ++ us, []⟩
  | ⟨base, g :: gs⟩ => ⟨base, (g ++ us) :: gs⟩

def push (t : Token) (n : Nesting) : Nesting := n.append [t]

def step (n : Nesting) : Token → Except EvalError Nesting
  | .opening => .ok ⟨n.base, [] :: n.groups⟩
  | .closing =>
      match n.groups with
      | [] => .ok (n.push .closing)
      | g :: gs => (reduce g).outcome.map fun v => push (.value v) ⟨n.base, gs⟩
  | t => .ok (n.push t)

def read (n : Nesting) (ts : List Token) : Except EvalError Nesting := ts.foldlM step n

def finish (n : Nesting) : Except EvalError Float :=
  if n.groups = [] ∧ .closing ∉ n.base then (reduce n.base).outcome else .error .unbalancedParentheses

structure Proper (n : Nesting) : Prop where
  base : .opening ∉ n.base
  groups : ∀ g ∈ n.groups, Flat g

theorem tokens_cons (base g : List Token) (gs : List (List Token)) :
    tokens ⟨base, g :: gs⟩ = tokens ⟨base, gs⟩ ++ .opening :: g := by
  simp [tokens]

theorem append_append (us vs : List Token) (n : Nesting) :
    (n.append us).append vs = n.append (us ++ vs) := by
  obtain ⟨base, _ | ⟨g, gs⟩⟩ := n <;> simp [append]

theorem tokens_append (us : List Token) (n : Nesting) : (n.append us).tokens = n.tokens ++ us := by
  obtain ⟨base, _ | ⟨g, gs⟩⟩ := n
  · simp [append, tokens]
  · simp [append, tokens_cons]

theorem read_cons (n : Nesting) (t : Token) (ts : List Token) :
    n.read (t :: ts) = n.step t >>= fun m => m.read ts := List.foldlM_cons

theorem read_append (n : Nesting) (ts us : List Token) :
    n.read (ts ++ us) = n.read ts >>= fun m => m.read us := List.foldlM_append

theorem step_eq_ok {n m : Nesting} {t : Token} (h : n.step t = .ok m) :
    (t = .opening ∧ m = ⟨n.base, [] :: n.groups⟩) ∨
      ((t.isParenthesis = false ∨ t = .closing ∧ n.groups = []) ∧ m = n.push t) ∨
      ∃ g gs v, t = .closing ∧ n.groups = g :: gs ∧ (reduce g).outcome = .ok v ∧
        m = push (.value v) ⟨n.base, gs⟩ := by
  cases t with
  | opening => exact Or.inl ⟨rfl, (Except.ok.inj h).symm⟩
  | operand | operator | blank => exact Or.inr (Or.inl ⟨Or.inl rfl, (Except.ok.inj h).symm⟩)
  | closing =>
      obtain ⟨base, _ | ⟨g, gs⟩⟩ := n
      · exact Or.inr (Or.inl ⟨Or.inr ⟨rfl, rfl⟩, (Except.ok.inj h).symm⟩)
      · have hm : (reduce g).outcome.map (fun v => push (.value v) ⟨base, gs⟩) = .ok m := h
        cases hv : (reduce g).outcome with
        | error e =>
            rw [hv] at hm
            cases hm
        | ok v =>
            rw [hv] at hm
            exact Or.inr (Or.inr ⟨g, gs, v, rfl, rfl, hv, (Except.ok.inj hm).symm⟩)

theorem step_eq_error {n : Nesting} {t : Token} {e : EvalError} (h : n.step t = .error e) :
    ∃ g gs, t = .closing ∧ n.groups = g :: gs ∧ (reduce g).outcome = .error e := by
  cases t with
  | opening | operand | operator | blank => cases h
  | closing =>
      obtain ⟨base, _ | ⟨g, gs⟩⟩ := n
      · cases h
      · have hm : (reduce g).outcome.map (fun v => push (.value v) ⟨base, gs⟩) = .error e := h
        cases hv : (reduce g).outcome with
        | error e' =>
            rw [hv] at hm
            cases hm
            exact ⟨g, gs, rfl, rfl, hv⟩
        | ok v =>
            rw [hv] at hm
            cases hm

theorem proper_start : start.Proper := ⟨List.not_mem_nil, fun _ h => absurd h List.not_mem_nil⟩

theorem Proper.push {n : Nesting} (hn : n.Proper) {t : Token}
    (h : t.isParenthesis = false ∨ t = .closing ∧ n.groups = []) : (n.push t).Proper := by
  have hne : .opening ≠ t := by
    rintro rfl
    rcases h with h | ⟨h, -⟩ <;> cases h
  obtain ⟨base, _ | ⟨g, gs⟩⟩ := n
  · refine ⟨?_, hn.groups⟩
    simpa [Nesting.push, append, hne] using hn.base
  · have ht : t.isParenthesis = false := h.resolve_right fun hc => List.cons_ne_nil _ _ hc.2
    obtain ⟨hg, hgs⟩ := List.forall_mem_cons.mp hn.groups
    refine ⟨hn.base, List.forall_mem_cons.mpr ⟨?_, hgs⟩⟩
    exact List.forall_mem_append.mpr ⟨hg, List.forall_mem_singleton.mpr ht⟩

theorem Proper.step {n m : Nesting} (hn : n.Proper) {t : Token} (h : n.step t = .ok m) : m.Proper := by
  rcases step_eq_ok h with ⟨rfl, rfl⟩ | ⟨ht, rfl⟩ | ⟨g, gs, v, rfl, hg, -, rfl⟩
  · exact ⟨hn.base, List.forall_mem_cons.mpr ⟨List.forall_mem_nil _, hn.groups⟩⟩
  · exact hn.push ht
  · have hgs : Proper ⟨n.base, gs⟩ := ⟨hn.base, fun g' h' => hn.groups g' (hg ▸ List.mem_cons_of_mem g h')⟩
    exact hgs.push (Or.inl rfl)

theorem Proper.read {n m : Nesting} (hn : n.Proper) {ts : List Token} (h : n.read ts = .ok m) : m.Proper := by
  induction ts generalizing n with
  | nil =>
      cases h
      exact hn
  | cons t ts ih =>
      obtain ⟨n', hs, h⟩ := bind_eq_ok.mp h
      exact ih (hn.step hs) h

theorem Proper.closing_not_mem {n : Nesting} (hn : n.Proper) :
    .closing ∉ n.groups.reverse.flatMap (.opening :: ·) := by
  intro hm
  obtain ⟨g, hg, hc⟩ := List.mem_flatMap.mp hm
  have hflat := hn.groups g (List.mem_reverse.mp hg)
  rcases List.mem_cons.mp hc with hc | hc
  · cases hc
  · cases hflat _ hc

theorem Proper.unmatched {n : Nesting} (hn : n.Proper) : Unmatched n.tokens :=
  unmatched_append hn.base hn.closing_not_mem

theorem Proper.closing_mem_tokens {n : Nesting} (hn : n.Proper) : .closing ∈ n.tokens ↔ .closing ∈ n.base := by
  rw [tokens, List.mem_append, or_iff_left hn.closing_not_mem]

theorem Proper.opening_mem_tokens {n : Nesting} (hn : n.Proper) : .opening ∈ n.tokens ↔ n.groups ≠ [] := by
  rw [tokens, List.mem_append, or_iff_right hn.base, List.mem_flatMap]
  constructor
  · rintro ⟨g, hg, -⟩ he
    rw [he] at hg
    cases hg
  · intro h
    obtain ⟨g, hg⟩ := List.exists_mem_of_ne_nil _ h
    exact ⟨g, List.mem_reverse.mpr hg, List.mem_cons_self⟩

theorem round_closing {base g : List Token} {gs : List (List Token)} (hn : Proper ⟨base, g :: gs⟩) (ts : List Token) :
    Round.of (tokens ⟨base, g :: gs⟩ ++ .closing :: ts) =
      match (reduce g).outcome with
      | .error error => .failed (reduce g).events error
      | .ok v =>
          .replaced ((reduce g).events ++ [.resolved (tokens ⟨base, gs⟩).length ((tokens ⟨base, gs⟩).length + g.length + 1) v])
            (tokens ⟨base, gs⟩ ++ .value v :: ts) := by
  obtain ⟨hg, hgs⟩ := List.forall_mem_cons.mp hn.groups
  have hfind := Group.find?_tokens (g := ⟨tokens ⟨base, gs⟩, g, ts⟩) (Proper.unmatched ⟨hn.base, hgs⟩) hg
  have htokens : tokens ⟨base, g :: gs⟩ ++ .closing :: ts = (Group.mk (tokens ⟨base, gs⟩) g ts).tokens := by
    simp [tokens_cons, Group.tokens]
  rw [Round.of, htokens, if_pos (by simp [Group.tokens]), hfind]
  rfl

theorem resolve_step {n m : Nesting} (hn : n.Proper) {t : Token} (h : n.step t = .ok m) (ts : List Token) :
    (resolve (n.tokens ++ t :: ts)).result = (resolve (m.tokens ++ ts)).result := by
  rcases step_eq_ok h with ⟨rfl, rfl⟩ | ⟨ht, rfl⟩ | ⟨g, gs, v, rfl, hg, hv, rfl⟩
  · rw [tokens_cons, List.append_assoc]
    rfl
  · rw [push, tokens_append, List.append_assoc]
    rfl
  · obtain ⟨base, groups⟩ := n
    cases hg
    have hround := round_closing hn ts
    rw [hv] at hround
    rw [resolve_replaced hround, push, tokens_append, List.append_assoc]
    rfl

theorem resolve_step_error {n : Nesting} (hn : n.Proper) {t : Token} {e : EvalError} (h : n.step t = .error e)
    (ts : List Token) : (resolve (n.tokens ++ t :: ts)).result = (n.tokens ++ t :: ts, some e) := by
  obtain ⟨g, gs, rfl, hg, hv⟩ := step_eq_error h
  obtain ⟨base, groups⟩ := n
  cases hg
  have hround := round_closing hn ts
  rw [hv] at hround
  rw [resolve_failed hround]
  rfl

theorem resolve_read {n m : Nesting} (hn : n.Proper) {ts : List Token} (h : n.read ts = .ok m) (us : List Token) :
    (resolve (n.tokens ++ (ts ++ us))).result = (resolve (m.tokens ++ us)).result := by
  induction ts generalizing n with
  | nil =>
      cases h
      rfl
  | cons t ts ih =>
      obtain ⟨n', hs, h⟩ := bind_eq_ok.mp h
      rw [List.cons_append, resolve_step hn hs, ih (hn.step hs) h]

theorem read_eq_error {n : Nesting} {ts : List Token} {e : EvalError} (h : n.read ts = .error e) :
    ∃ us t vs m, ts = us ++ t :: vs ∧ n.read us = .ok m ∧ m.step t = .error e := by
  induction ts generalizing n with
  | nil => cases h
  | cons t ts ih =>
      rcases bind_eq_error.mp h with hs | ⟨n', hs, h⟩
      · exact ⟨[], t, ts, n, rfl, rfl, hs⟩
      · obtain ⟨us, u, vs, m, rfl, hm, he⟩ := ih h
        exact ⟨t :: us, u, vs, m, rfl, by rw [read_cons, hs]; exact hm, he⟩

theorem resolve_tokens {n : Nesting} (hn : n.Proper) :
    (resolve n.tokens).result =
      (n.tokens, if n.groups ≠ [] ∧ .closing ∈ n.base then some .unbalancedParentheses else none) := by
  have hfind := Group.find?_of_unmatched hn.unmatched
  have hmem : .opening ∈ n.tokens ∧ .closing ∈ n.tokens ↔ n.groups ≠ [] ∧ .closing ∈ n.base :=
    and_congr hn.opening_mem_tokens hn.closing_mem_tokens
  by_cases h : n.groups ≠ [] ∧ .closing ∈ n.base
  · have hround : Round.of n.tokens = .failed [] .unbalancedParentheses := by
      rw [Round.of, if_pos (hmem.mpr h), hfind]
    rw [resolve_failed hround, if_pos h]
    rfl
  · have hround : Round.of n.tokens = .settled := by rw [Round.of, if_neg (mt hmem.mp h)]
    rw [resolve_settled hround, if_neg h]
    rfl

theorem flat_tokens {n : Nesting} (hn : n.Proper) : Flat n.tokens ↔ n.groups = [] ∧ .closing ∉ n.base := by
  rw [flat_iff, hn.opening_mem_tokens, hn.closing_mem_tokens, ne_eq, Decidable.not_not]

theorem result_of_read {ts : List Token} {m : Nesting} (h : start.read ts = .ok m) :
    (resolve ts).result =
      (m.tokens, if m.groups ≠ [] ∧ .closing ∈ m.base then some .unbalancedParentheses else none) := by
  have hresult := resolve_read proper_start h []
  rw [List.append_nil, List.append_nil, resolve_tokens (proper_start.read h)] at hresult
  exact hresult

theorem result_append_of_error {ts : List Token} {e : EvalError} (h : start.read ts = .error e) (us : List Token) :
    (resolve (ts ++ us)).result = ((resolve ts).tokens ++ us, some e) := by
  obtain ⟨before, t, after, m, rfl, hm, he⟩ := read_eq_error h
  have hresult (us : List Token) :
      (resolve (before ++ t :: after ++ us)).result = (m.tokens ++ t :: (after ++ us), some e) := by
    rw [List.append_assoc, List.cons_append]
    exact (resolve_read proper_start hm _).trans (resolve_step_error (proper_start.read hm) he _)
  have htokens := congrArg Prod.fst (hresult [])
  rw [List.append_nil, List.append_nil] at htokens
  rw [hresult, show (resolve (before ++ t :: after)).tokens = _ from htokens, List.append_assoc]
  rfl

theorem settled_resolve (ts : List Token) :
    settled (resolve ts).result = start.read ts >>= finish := by
  cases hread : start.read ts with
  | error error =>
      have hresult := result_append_of_error hread []
      rw [List.append_nil] at hresult
      rw [hresult]
      rfl
  | ok m =>
      have hm := proper_start.read hread
      change settled (resolve ts).result = m.finish
      rw [result_of_read hread]
      by_cases hflat : m.groups = [] ∧ .closing ∉ m.base
      · have hbase : m.tokens = m.base := by simp [tokens, hflat.1]
        rw [if_neg fun h => h.1 hflat.1, finish, if_pos hflat, settled,
          if_pos ((flat_tokens hm).mpr hflat), hbase]
      · rw [finish, if_neg hflat]
        split
        · rfl
        · exact if_neg fun h => hflat ((flat_tokens hm).mp h)

end Nesting

namespace Evaluation

theorem settle_outcome (e : Evaluation) : e.settle.outcome = settled (resolve e.tokens).result := by
  unfold settle Resolution.result settled
  dsimp only
  cases (resolve e.tokens).failure with
  | some error => rfl
  | none =>
      dsimp only
      by_cases hflat : Flat (resolve e.tokens).tokens
      · rw [if_pos hflat, if_neg (mt any_isParenthesis.mp (not_not_intro hflat)), finish]
        dsimp only
        cases (reduce (resolve e.tokens).tokens).outcome <;> rfl
      · rw [if_neg hflat, if_pos (any_isParenthesis.mpr hflat)]

theorem run_outcome (e : Evaluation) :
    e.run.outcome = tokenize e.source >>= fun ts => Nesting.start.read ts >>= Nesting.finish := by
  rw [tokenize, run]
  dsimp only
  cases (Scan.ofString e.source).outcome with
  | error error => rfl
  | ok ts => exact (settle_outcome _).trans (Nesting.settled_resolve ts)

end Evaluation

theorem evaluate?_eq_run (s : String) : evaluate? s = (Evaluation.new s).run.outcome := by
  rw [evaluate?, evaluateTraced]
  cases (Evaluation.new s).run.outcome <;> rfl

theorem evaluate?_eq_read (s : String) :
    evaluate? s = tokenize s >>= fun ts => Nesting.start.read ts >>= Nesting.finish := by
  rw [evaluate?_eq_run, Evaluation.run_outcome]
  rfl

end Calculator
