import Calculator.Proofs.Collapse
import Mathlib.Data.List.Nodup

namespace Calculator

/-- The positions of the parentheses that are open, the innermost one first, and the pairs that have closed, in the order
in which they did. -/
structure Matching where
  opened : List Nat
  pairs : List (Nat × Nat)

namespace Matching

def start : Matching := ⟨[], []⟩

def step (m : Matching) : Token × Nat → Matching
  | (.opening, i) => ⟨i :: m.opened, m.pairs⟩
  | (.closing, i) =>
      match m.opened with
      | [] => m
      | first :: opened => ⟨opened, m.pairs ++ [(first, i)]⟩
  | _ => m

def run (m : Matching) (xs : List (Token × Nat)) : Matching := xs.foldl step m

end Matching

/-- The positions of the parentheses that belong together, ordered by those of the closing ones. -/
def matchedPairs (ts : List Token) : List (Nat × Nat) := (Matching.start.run ts.zipIdx).pairs

def between (ts : List Token) (p : Nat × Nat) : List Token := (ts.take p.2).drop (p.1 + 1)

/-- What the group of a pair comes to once the groups in it have given way to their values. -/
def GroupOutcome (ts : List Token) (p : Nat × Nat) (outcome : Except EvalError Float) : Prop :=
  ∃ inside, Collapses (between ts p) inside ∧ (reduce inside).outcome = outcome

/-- Every group that has a value is given it, by the position at which the group opens. -/
def Valued (ts : List Token) (value : Nat → Float) : Prop :=
  ∀ p ∈ matchedPairs ts, ∀ v, GroupOutcome ts p (.ok v) → value p.1 = v

/-- What is left of a token when the groups of some pairs have given way to values. The value of a group stands where
the group opened, and nothing else is left of it. -/
def remains (value : Nat → Float) (ps : List (Nat × Nat)) (x : Token × Nat) : Option (Token × Nat) :=
  if ∃ p ∈ ps, p.1 < x.2 ∧ x.2 ≤ p.2 then none
  else if ∃ p ∈ ps, p.1 = x.2 then some (.value (value x.2), x.2)
  else some x

def withValues (value : Nat → Float) (ps : List (Nat × Nat)) (ts : List Token) : List Token :=
  (ts.zipIdx.filterMap (remains value ps)).map Prod.fst

def unpaired (ps : List (Nat × Nat)) (x : Token × Nat) : Bool := ps.all fun p => x.2 != p.1 && x.2 != p.2

/-- The parentheses without a partner, with their positions. -/
def leftOver (ts : List Token) : List (Token × Nat) :=
  ts.zipIdx.filter fun x => x.1.isParenthesis && unpaired (matchedPairs ts) x

variable {ts us vs g inside : List Token} {xs ys before after : List (Token × Nat)} {i j : Nat} {v : Float} {t : Token}
  {p : Nat × Nat} {ps done : List (Nat × Nat)} {value : Nat → Float}

namespace Matching

theorem run_cons (m : Matching) (x : Token × Nat) (xs : List (Token × Nat)) : m.run (x :: xs) = (m.step x).run xs := rfl

theorem run_append (m : Matching) (xs ys : List (Token × Nat)) : m.run (xs ++ ys) = (m.run xs).run ys :=
  List.foldl_append

theorem step_flat (m : Matching) (h : t.isParenthesis = false) (i : Nat) : m.step (t, i) = m := by
  cases t with
  | opening | closing => cases h
  | operand | operator | blank => rfl

theorem run_flat (m : Matching) (h : Flat (xs.map Prod.fst)) : m.run xs = m := by
  induction xs with
  | nil => rfl
  | cons x xs ih =>
      obtain ⟨hx, hxs⟩ := List.forall_mem_cons.mp h
      rw [run_cons, step_flat m hx, ih hxs]

theorem run_eq (m : Matching) (xs : List (Token × Nat)) :
    m.run xs = ⟨(run ⟨m.opened, []⟩ xs).opened, m.pairs ++ (run ⟨m.opened, []⟩ xs).pairs⟩ := by
  induction xs using List.reverseRecOn with
  | nil => simp [run]
  | append_singleton xs x ih =>
      obtain ⟨t, i⟩ := x
      rw [run_append, run_append, ih]
      generalize run ⟨m.opened, []⟩ xs = n
      obtain ⟨opened, pairs⟩ := n
      cases t with
      | opening | operand | operator | blank => rfl
      | closing =>
          cases opened with
          | nil => rfl
          | cons first opened => exact congrArg (mk opened) (List.append_assoc _ _ _)

theorem pairs_of_closing_not_mem (m : Matching) (h : .closing ∉ xs.map Prod.fst) : (m.run xs).pairs = m.pairs := by
  induction xs generalizing m with
  | nil => rfl
  | cons x xs ih =>
      obtain ⟨t, i⟩ := x
      rw [List.map_cons, List.mem_cons, not_or] at h
      obtain ⟨ht, hxs⟩ := h
      rw [run_cons, ih _ hxs]
      cases t with
      | closing => exact absurd rfl ht
      | opening | operand | operator | blank => rfl

theorem pairs_of_unmatched (h : Unmatched (xs.map Prod.fst)) : (start.run xs).pairs = [] := by
  induction xs with
  | nil => rfl
  | cons x xs ih =>
      obtain ⟨t, i⟩ := x
      obtain ⟨hc, hxs⟩ := unmatched_cons.mp h
      cases t with
      | opening => exact pairs_of_closing_not_mem ⟨[i], []⟩ (hc rfl)
      | closing | operand | operator | blank => exact ih hxs

/-- The group that closes first is the first pair, and its value in its place leaves the other pairs as they are. -/
theorem pairs_group (hb : Unmatched (before.map Prod.fst)) (hi : Flat (ys.map Prod.fst)) (v : Float) :
    (start.run (before ++ (.opening, i) :: (ys ++ (.closing, j) :: after))).pairs =
      (i, j) :: (start.run (before ++ (.value v, i) :: after)).pairs := by
  have hpairs := pairs_of_unmatched hb
  rw [run_append, run_append]
  generalize start.run before = m at hpairs
  obtain ⟨opened, pairs⟩ := m
  cases hpairs
  rw [run_cons, run_append, run_flat _ hi]
  change (run ⟨opened, [(i, j)]⟩ after).pairs = (i, j) :: (run ⟨opened, []⟩ after).pairs
  rw [run_eq]
  rfl

/-- What is known of a matching of `n` tokens: a parenthesis opens at most one pair, and no two pairs close together. -/
structure Proper (n : Nat) (m : Matching) : Prop where
  openings : ∀ i ∈ m.opened ++ m.pairs.map Prod.fst, i < n
  nodup : (m.opened ++ m.pairs.map Prod.fst).Nodup
  closings : ∀ p ∈ m.pairs, p.2 < n
  sorted : m.pairs.Pairwise fun p q => p.2 < q.2

theorem Proper.succ {n : Nat} {m : Matching} (h : m.Proper n) : m.Proper (n + 1) :=
  ⟨fun i hi => Nat.lt_succ_of_lt (h.openings i hi), h.nodup, fun p hp => Nat.lt_succ_of_lt (h.closings p hp), h.sorted⟩

theorem Proper.step {n : Nat} {m : Matching} (h : m.Proper n) (t : Token) : (m.step (t, n)).Proper (n + 1) := by
  obtain ⟨opened, pairs⟩ := m
  cases t with
  | operand | operator | blank => exact h.succ
  | opening =>
      refine ⟨?_, ?_, h.succ.closings, h.sorted⟩
      · exact List.forall_mem_cons.mpr ⟨Nat.lt_succ_self n, h.succ.openings⟩
      · exact List.nodup_cons.mpr ⟨fun hn => Nat.lt_irrefl n (h.openings n hn), h.nodup⟩
  | closing =>
      cases opened with
      | nil => exact h.succ
      | cons first opened =>
          -- The position of the opening parenthesis only moves from the open ones to the pairs.
          have hperm : (opened ++ (pairs ++ [(first, n)]).map Prod.fst).Perm (first :: opened ++ pairs.map Prod.fst) := by
            rw [List.map_append, ← List.append_assoc, List.cons_append]
            exact List.perm_append_singleton first _
          refine ⟨fun i hi => h.succ.openings i (hperm.mem_iff.mp hi), hperm.nodup_iff.mpr h.nodup, ?_, ?_⟩
          · exact List.forall_mem_append.mpr ⟨h.succ.closings, List.forall_mem_singleton.mpr (Nat.lt_succ_self n)⟩
          · refine List.pairwise_append.mpr ⟨h.sorted, List.pairwise_singleton _ _, fun p hp q hq => ?_⟩
            rw [List.mem_singleton.mp hq]
            exact h.closings p hp

theorem proper_run (ts : List Token) : (start.run ts.zipIdx).Proper ts.length := by
  induction ts using List.reverseRecOn with
  | nil => exact ⟨nofun, List.nodup_nil, nofun, List.Pairwise.nil⟩
  | append_singleton ts t ih =>
      rw [List.zipIdx_append, run_append, List.length_append, Nat.zero_add]
      exact ih.step t

end Matching

theorem sorted_matchedPairs (ts : List Token) : (matchedPairs ts).Pairwise fun p q => p.2 < q.2 :=
  (Matching.proper_run ts).sorted

example : matchedPairs [.opening, .closing, .closing, .opening, .blank, .closing] = [(0, 1), (3, 5)] := by decide

theorem matchedPairs_inj {q : Nat × Nat} (hp : p ∈ matchedPairs ts) (hq : q ∈ matchedPairs ts) (h : p.1 = q.1) : p = q :=
  List.inj_on_of_nodup_map (List.nodup_append.mp (Matching.proper_run ts).nodup).2.1 hp hq h

theorem filter_matchedPairs {rest : List (Nat × Nat)} (h : matchedPairs ts = done ++ p :: rest) :
    (matchedPairs ts).filter (·.2 < p.2) = done := by
  have hsorted := sorted_matchedPairs ts
  rw [h] at hsorted ⊢
  obtain ⟨-, hrest, hdone⟩ := List.pairwise_append.mp hsorted
  have hbefore : done.filter (·.2 < p.2) = done :=
    List.filter_eq_self.mpr fun q hq => decide_eq_true (hdone q hq p List.mem_cons_self)
  have hafter : (p :: rest).filter (·.2 < p.2) = [] := by
    refine List.filter_eq_nil_iff.mpr fun q hq => ?_
    rcases List.mem_cons.mp hq with rfl | hq
    · simp
    · have hlt := (List.pairwise_cons.mp hrest).1 q hq
      simp
      omega
  rw [List.filter_append, hbefore, hafter, List.append_nil]

theorem GroupOutcome.unique {x y : Except EvalError Float} (h : GroupOutcome ts p x) (h' : GroupOutcome ts p y) :
    x = y := by
  obtain ⟨inside, hc, rfl⟩ := h
  obtain ⟨inside', hc', rfl⟩ := h'
  rw [hc.unique hc']

theorem exists_valued (ts : List Token) : ∃ value : Nat → Float, Valued ts value := by
  have hvalue (i : Nat) : ∃ w, ∀ p ∈ matchedPairs ts, p.1 = i → ∀ v, GroupOutcome ts p (.ok v) → w = v := by
    by_cases h : ∃ p ∈ matchedPairs ts, p.1 = i ∧ ∃ v, GroupOutcome ts p (.ok v)
    · obtain ⟨p, hp, rfl, w, hw⟩ := h
      refine ⟨w, fun q hq hqp v hv => ?_⟩
      rw [matchedPairs_inj hq hp hqp] at hv
      exact Except.ok.inj (hw.unique hv)
    · exact ⟨0, fun p hp hpi v hv => absurd ⟨p, hp, hpi, v, hv⟩ h⟩
  choose value hvalue using hvalue
  exact ⟨value, fun p hp v hv => hvalue p.1 p hp rfl v hv⟩

end Calculator
