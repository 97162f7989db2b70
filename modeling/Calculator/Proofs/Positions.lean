import Calculator.Proofs.Matching
import Calculator.Proofs.Rounds

namespace Calculator

variable {ts us vs g : List Token} {xs ys before after : List (Token × Nat)} {i j : Nat} {t : Token} {p : Nat × Nat}
  {ps done : List (Nat × Nat)} {value : Nat → Float}

/-- The tokens on the right stand for those on the left, which start at a position: each of them for itself, or a value
for the group that it comes from. -/
inductive Stands : Nat → List Token → List (Token × Nat) → Prop
  | nil {i : Nat} : Stands i [] []
  | token {i : Nat} {t : Token} {ts : List Token} {xs : List (Token × Nat)} :
      Stands (i + 1) ts xs → Stands i (t :: ts) ((t, i) :: xs)
  | group {i : Nat} {g inside ts : List Token} {xs : List (Token × Nat)} {v : Float} :
      Collapses g inside → (reduce inside).outcome = .ok v → Stands (i + (grouped g).length) ts xs →
        Stands i (grouped g ++ ts) ((.value v, i) :: xs)

namespace Stands

theorem zipIdx (i : Nat) (ts : List Token) : Stands i ts (ts.zipIdx i) := by
  induction ts generalizing i with
  | nil => exact nil
  | cons t ts ih => exact token (ih (i + 1))

theorem append (h : Stands i ts xs) (h' : Stands (i + ts.length) us ys) : Stands i (ts ++ us) (xs ++ ys) := by
  induction h with
  | nil => exact h'
  | token _ ih =>
      apply token
      apply ih
      rwa [List.length_cons, ← Nat.add_assoc, Nat.add_right_comm] at h'
  | group hg hv _ ih =>
      rw [List.append_assoc]
      apply group hg hv
      apply ih
      rwa [List.length_append, ← Nat.add_assoc] at h'

theorem split (h : Stands i ts (xs ++ ys)) :
    ∃ us vs, ts = us ++ vs ∧ Stands i us xs ∧ Stands (i + us.length) vs ys := by
  induction xs generalizing i ts with
  | nil => exact ⟨[], ts, rfl, nil, h⟩
  | cons x xs ih =>
      cases h with
      | @token _ t _ _ h =>
          obtain ⟨us, vs, rfl, hx, hy⟩ := ih h
          refine ⟨t :: us, vs, rfl, token hx, ?_⟩
          rwa [List.length_cons, ← Nat.add_assoc, Nat.add_right_comm]
      | @group _ g _ _ _ _ hg hv h =>
          obtain ⟨us, vs, rfl, hx, hy⟩ := ih h
          refine ⟨grouped g ++ us, vs, (List.append_assoc _ _ _).symm, group hg hv hx, ?_⟩
          rwa [List.length_append, ← Nat.add_assoc]

theorem parenthesis (h : Stands i ts ((t, j) :: xs)) (ht : t.isParenthesis) :
    j = i ∧ ∃ us, ts = t :: us ∧ Stands (i + 1) us xs := by
  cases h with
  | token h => exact ⟨rfl, _, rfl, h⟩
  | group => cases ht

theorem collapses (h : Stands i ts xs) (hf : Flat (xs.map Prod.fst)) : Collapses ts (xs.map Prod.fst) := by
  induction h with
  | nil => exact .nil
  | token _ ih =>
      obtain ⟨ht, hf⟩ := List.forall_mem_cons.mp hf
      exact .token ht (ih hf)
  | group hg hv _ ih => exact .group hg hv (ih (List.forall_mem_cons.mp hf).2)

theorem bounds (h : Stands i ts xs) : ∀ x ∈ xs, i ≤ x.2 ∧ x.2 < i + ts.length := by
  induction h with
  | nil => exact nofun
  | token _ ih =>
      refine List.forall_mem_cons.mpr ⟨by simp, fun x hx => ?_⟩
      have hbounds := ih x hx
      simp only [List.length_cons]
      omega
  | group _ _ _ ih =>
      refine List.forall_mem_cons.mpr ⟨by simp [grouped], fun x hx => ?_⟩
      have hbounds := ih x hx
      simp only [List.length_append]
      omega

end Stands

structure PlacedGroup where
  before : List (Token × Nat)
  pair : Nat × Nat
  inside : List (Token × Nat)
  after : List (Token × Nat)

namespace PlacedGroup

variable {q : PlacedGroup} {v : Float}

def tokens (q : PlacedGroup) : List (Token × Nat) :=
  q.before ++ (.opening, q.pair.1) :: (q.inside ++ (.closing, q.pair.2) :: q.after)

def replaceBy (q : PlacedGroup) (v : Float) : List (Token × Nat) := q.before ++ (.value v, q.pair.1) :: q.after

def toGroup (q : PlacedGroup) : Group := ⟨q.before.map Prod.fst, q.inside.map Prod.fst, q.after.map Prod.fst⟩

theorem map_replaceBy (q : PlacedGroup) (v : Float) : (q.replaceBy v).map Prod.fst = q.toGroup.replaceBy v := by
  simp [replaceBy, toGroup, Group.replaceBy]

theorem exists_of_find? {g : Group} (h : Group.find? (xs.map Prod.fst) = some g) :
    ∃ q : PlacedGroup, q.tokens = xs ∧ q.toGroup = g := by
  have htokens : g.before ++ .opening :: (g.inside ++ .closing :: g.after) = xs.map Prod.fst :=
    (Group.find?_eq_some h).1
  obtain ⟨before, _, rfl, hbefore, htail⟩ := List.map_eq_append_iff.mp htokens.symm
  obtain ⟨⟨_, first⟩, _, rfl, rfl, hrest⟩ := List.map_eq_cons_iff.mp htail
  obtain ⟨inside, _, rfl, hinside, hclosing⟩ := List.map_eq_append_iff.mp hrest
  obtain ⟨⟨_, last⟩, after, rfl, rfl, hafter⟩ := List.map_eq_cons_iff.mp hclosing
  refine ⟨⟨before, (first, last), inside, after⟩, rfl, ?_⟩
  rw [toGroup, hbefore, hinside, hafter]

/-- The parts of a sequence that a group in it and what is around it stand for. -/
structure Origin (i : Nat) (ts : List Token) (q : PlacedGroup) (us g vs : List Token) : Prop where
  tokens : ts = us ++ (grouped g ++ vs)
  first : q.pair.1 = i + us.length
  last : q.pair.2 = q.pair.1 + 1 + g.length
  before : Stands i us q.before
  inside : Stands (q.pair.1 + 1) g q.inside
  after : Stands (q.pair.2 + 1) vs q.after

theorem exists_origin (h : Stands i ts q.tokens) : ∃ us g vs, Origin i ts q us g vs := by
  obtain ⟨us, _, rfl, hbefore, hopening⟩ := h.split
  obtain ⟨hfirst, _, rfl, hopened⟩ := hopening.parenthesis rfl
  obtain ⟨g, _, rfl, hinside, hclosing⟩ := hopened.split
  obtain ⟨hlast, vs, rfl, hafter⟩ := hclosing.parenthesis rfl
  rw [← hfirst] at hinside hlast hafter
  rw [← hlast] at hafter
  exact ⟨us, g, vs, by simp [grouped], hfirst, hlast, hbefore, hinside, hafter⟩

theorem Origin.between_eq (h : Origin 0 ts q us g vs) : between ts q.pair = g := by
  have hfirst : q.pair.1 + 1 = (us ++ [Token.opening]).length := by simp [h.first]
  have hlast : q.pair.2 = ((us ++ [Token.opening]) ++ g).length := by
    rw [List.length_append, ← hfirst]
    exact h.last
  have htokens : ts = ((us ++ [.opening]) ++ g) ++ .closing :: vs := by simp [h.tokens, grouped]
  rw [between, hfirst, hlast, htokens, List.take_left, List.drop_left]

theorem collapses_between (h : Stands 0 ts q.tokens) (hf : Flat q.toGroup.inside) :
    Collapses (between ts q.pair) q.toGroup.inside := by
  obtain ⟨us, g, vs, horigin⟩ := exists_origin h
  rw [horigin.between_eq]
  exact horigin.inside.collapses hf

theorem stands_replaceBy (h : Stands i ts q.tokens) (hf : Flat q.toGroup.inside)
    (hv : (reduce q.toGroup.inside).outcome = .ok v) : Stands i ts (q.replaceBy v) := by
  obtain ⟨us, g, vs, horigin⟩ := exists_origin h
  have hafter : q.pair.2 + 1 = q.pair.1 + (grouped g).length := by
    rw [horigin.last, grouped]
    simp
    omega
  rw [horigin.tokens, replaceBy]
  apply horigin.before.append
  rw [← horigin.first]
  apply Stands.group (horigin.inside.collapses hf) hv
  rw [← hafter]
  exact horigin.after

structure Ordered (q : PlacedGroup) : Prop where
  pair : q.pair.1 < q.pair.2
  before : ∀ x ∈ q.before, x.2 < q.pair.1
  inside : ∀ x ∈ q.inside, q.pair.1 < x.2 ∧ x.2 < q.pair.2
  after : ∀ x ∈ q.after, q.pair.2 < x.2

theorem ordered (h : Stands i ts q.tokens) : q.Ordered := by
  obtain ⟨us, g, vs, horigin⟩ := exists_origin h
  have hfirst := horigin.first
  have hlast := horigin.last
  refine ⟨by omega, fun x hx => ?_, fun x hx => ?_, fun x hx => (horigin.after.bounds x hx).1⟩
  · have hbounds := horigin.before.bounds x hx
    omega
  · have hbounds := horigin.inside.bounds x hx
    omega

end PlacedGroup

section Remains

variable {x : Token × Nat}

theorem remains_nil (x : Token × Nat) : remains value [] x = some x := by simp [remains]

theorem remains_singleton (p : Nat × Nat) (x : Token × Nat) :
    remains value [p] x =
      if p.1 < x.2 ∧ x.2 ≤ p.2 then none else if p.1 = x.2 then some (.value (value x.2), x.2) else some x := by
  simp [remains]

theorem remains_outside (h : x.2 < p.1 ∨ p.2 < x.2) (hp : p.1 < p.2) : remains value [p] x = some x := by
  rw [remains_singleton, if_neg (by omega), if_neg (by omega)]

theorem remains_inside (h : p.1 < x.2 ∧ x.2 ≤ p.2) : remains value [p] x = none := by
  rw [remains_singleton, if_pos h]

theorem remains_first (h : x.2 = p.1) : remains value [p] x = some (.value (value p.1), p.1) := by
  rw [remains_singleton, if_neg (by omega), if_pos h.symm, h]

theorem remains_append (ps : List (Nat × Nat)) (p : Nat × Nat) (x : Token × Nat) :
    remains value (ps ++ [p]) x = (remains value ps x).bind (remains value [p]) := by
  simp only [remains, List.mem_append, List.mem_singleton, or_and_right, exists_or, exists_eq_left]
  by_cases hin : ∃ q ∈ ps, q.1 < x.2 ∧ x.2 ≤ q.2
  · simp [hin]
  · by_cases hfirst : ∃ q ∈ ps, q.1 = x.2
    · simp [hin, hfirst, remains_singleton]
    · simp [hin, hfirst, remains_singleton]

theorem filterMap_remains_append (xs : List (Token × Nat)) (ps : List (Nat × Nat)) (p : Nat × Nat) :
    xs.filterMap (remains value (ps ++ [p])) = (xs.filterMap (remains value ps)).filterMap (remains value [p]) := by
  rw [List.filterMap_filterMap]
  congr 1
  funext x
  exact remains_append ps p x

theorem filterMap_remains_outside (h : ∀ x ∈ xs, x.2 < p.1 ∨ p.2 < x.2) (hp : p.1 < p.2) :
    xs.filterMap (remains value [p]) = xs := by
  rw [List.filterMap_congr fun x hx => remains_outside (h x hx) hp]
  exact List.filterMap_some

theorem filterMap_remains_inside (h : ∀ x ∈ xs, p.1 < x.2 ∧ x.2 ≤ p.2) : xs.filterMap (remains value [p]) = [] :=
  List.filterMap_eq_nil_iff.mpr fun x hx => remains_inside (h x hx)

end Remains

theorem unpaired_append (ps : List (Nat × Nat)) (p : Nat × Nat) (x : Token × Nat) :
    unpaired (ps ++ [p]) x = (unpaired ps x && unpaired [p] x) := List.all_append

namespace PlacedGroup.Ordered

variable {q : PlacedGroup} {v : Float}

theorem filterMap_remains (h : q.Ordered) :
    q.tokens.filterMap (remains value [q.pair]) = q.replaceBy (value q.pair.1) := by
  have hbefore : q.before.filterMap (remains value [q.pair]) = q.before :=
    filterMap_remains_outside (fun x hx => .inl (h.before x hx)) h.pair
  have hinside : q.inside.filterMap (remains value [q.pair]) = [] :=
    filterMap_remains_inside fun x hx => ⟨(h.inside x hx).1, Nat.le_of_lt (h.inside x hx).2⟩
  have hafter : q.after.filterMap (remains value [q.pair]) = q.after :=
    filterMap_remains_outside (fun x hx => .inr (h.after x hx)) h.pair
  have hclosing : remains value [q.pair] (.closing, q.pair.2) = none := remains_inside ⟨h.pair, Nat.le_refl _⟩
  rw [tokens, List.filterMap_append, List.filterMap_cons_some (remains_first rfl), List.filterMap_append, hbefore, hinside,
    List.filterMap_cons_none hclosing, hafter]
  rfl

theorem filter_parentheses (h : q.Ordered) (hf : Flat q.toGroup.inside) (v : Float) :
    (q.replaceBy v).filter (·.1.isParenthesis) = (q.tokens.filter (·.1.isParenthesis)).filter (unpaired [q.pair]) := by
  have hpair := h.pair
  have hkept {xs : List (Token × Nat)} (hxs : ∀ x ∈ xs, x.2 ≠ q.pair.1 ∧ x.2 ≠ q.pair.2) :
      (xs.filter (·.1.isParenthesis)).filter (unpaired [q.pair]) = xs.filter (·.1.isParenthesis) :=
    List.filter_eq_self.mpr fun x hx => by simpa [unpaired] using hxs x (List.mem_of_mem_filter hx)
  have hbefore := hkept fun x hx => by
    have hx := h.before x hx
    omega
  have hafter := hkept fun x hx => by
    have hx := h.after x hx
    omega
  have hinside : q.inside.filter (·.1.isParenthesis) = [] :=
    List.filter_eq_nil_iff.mpr fun x hx => by simp [hf x.1 (List.mem_map_of_mem hx)]
  have hopening : ¬ unpaired [q.pair] (.opening, q.pair.1) := by simp [unpaired]
  have hclosing : ¬ unpaired [q.pair] (.closing, q.pair.2) := by simp [unpaired]
  rw [replaceBy, List.filter_append, List.filter_cons_of_neg (by simp [Token.isParenthesis])]
  rw [tokens, List.filter_append, List.filter_cons_of_pos rfl, List.filter_append, List.filter_cons_of_neg hopening,
    List.filter_append, hinside, List.nil_append, List.filter_cons_of_pos rfl, List.filter_cons_of_neg hclosing, hbefore,
    hafter]

end PlacedGroup.Ordered

/-- What a round logs that replaces the group of a pair: what the operators in the group came to, and the group. -/
def GroupLog (ts : List Token) (p : Nat × Nat) (events : List Event) : Prop :=
  ∃ inside first v, Collapses (between ts p) inside ∧ (reduce inside).outcome = .ok v ∧
    events = (reduce inside).events ++ [.resolved first (first + inside.length + 1) v]

/-- What has become of a sequence when certain of its groups have given way to their values. -/
structure Progress (value : Nat → Float) (ts : List Token) (done : List (Nat × Nat)) (xs : List (Token × Nat)) :
    Prop where
  stands : Stands 0 ts xs
  pairs : matchedPairs ts = done ++ (Matching.start.run xs).pairs
  remains : xs = ts.zipIdx.filterMap (remains value done)
  parentheses : xs.filter (·.1.isParenthesis) = ts.zipIdx.filter fun x => x.1.isParenthesis && unpaired done x
  values : ∀ p ∈ done, GroupOutcome ts p (.ok (value p.1))

namespace Progress

theorem start (ts : List Token) : Progress value ts [] ts.zipIdx where
  stands := .zipIdx 0 ts
  pairs := rfl
  remains := by
    rw [funext (@remains_nil value)]
    exact List.filterMap_some.symm
  parentheses := by simp [unpaired]
  values := nofun

theorem withValues (h : Progress value ts done xs) : xs.map Prod.fst = withValues value done ts := by
  rw [Calculator.withValues, ← h.remains]

theorem group (h : Progress value ts done xs) {g : Group} (hg : Group.find? (xs.map Prod.fst) = some g) :
    ∃ p rest, (Matching.start.run xs).pairs = p :: rest ∧ Collapses (between ts p) g.inside ∧
      (GroupOutcome ts p (.ok (value p.1)) →
        ∃ ys, Progress value ts (done ++ [p]) ys ∧ ys.map Prod.fst = g.replaceBy (value p.1)) := by
  have hbefore := Group.unmatched_before hg
  have hinside := (Group.find?_eq_some hg).2
  obtain ⟨q, rfl, rfl⟩ := PlacedGroup.exists_of_find? hg
  have hordered := PlacedGroup.ordered h.stands
  have hcollapses := PlacedGroup.collapses_between h.stands hinside
  have hpairs (v : Float) : (Matching.start.run q.tokens).pairs = q.pair :: (Matching.start.run (q.replaceBy v)).pairs :=
    Matching.pairs_group hbefore hinside v
  refine ⟨q.pair, _, hpairs (value q.pair.1), hcollapses, fun houtcome => ?_⟩
  have hvalue := houtcome
  obtain ⟨inside, hc, hv⟩ := houtcome
  rw [hc.unique hcollapses] at hv
  refine ⟨q.replaceBy (value q.pair.1), ?_, q.map_replaceBy _⟩
  constructor
  · exact PlacedGroup.stands_replaceBy h.stands hinside hv
  · rw [h.pairs, List.append_assoc]
    exact congrArg (done ++ ·) (hpairs (value q.pair.1))
  · rw [filterMap_remains_append, ← h.remains, hordered.filterMap_remains]
  · rw [hordered.filter_parentheses hinside, h.parentheses, List.filter_filter]
    congr 1
    funext x
    rw [unpaired_append, Bool.and_left_comm, Bool.and_comm (unpaired [q.pair] x)]
  · exact List.forall_mem_append.mpr ⟨h.values, List.forall_mem_singleton.mpr hvalue⟩

theorem mem_matchedPairs (h : Progress value ts done xs) {rest : List (Nat × Nat)}
    (hp : (Matching.start.run xs).pairs = p :: rest) : p ∈ matchedPairs ts := by
  rw [h.pairs, hp]
  exact List.mem_append_right done List.mem_cons_self

/-- Each round takes the next pair. -/
theorem rounds (h : Progress value ts done xs) (hvalue : Valued ts value) {logs : List (List Event)}
    (hrounds : Rounds logs us vs) (hus : xs.map Prod.fst = us) :
    ∃ new ys, Progress value ts (done ++ new) ys ∧ ys.map Prod.fst = vs ∧ List.Forall₂ (GroupLog ts) new logs := by
  induction hrounds generalizing done xs with
  | refl => exact ⟨[], xs, by rwa [List.append_nil], hus, .nil⟩
  | round hround _ ih =>
      subst hus
      obtain ⟨g, v, hg, hv, rfl, rfl⟩ := Round.exists_of_replaced hround
      obtain ⟨p, rest, hpairs, hcollapses, hreplace⟩ := h.group hg
      have houtcome : GroupOutcome ts p (.ok v) := ⟨g.inside, hcollapses, hv⟩
      obtain rfl := hvalue p (h.mem_matchedPairs hpairs) v houtcome
      obtain ⟨ys, hys, htokens⟩ := hreplace houtcome
      obtain ⟨new, zs, hzs, hvs, hlogs⟩ := ih hys htokens
      refine ⟨p :: new, zs, ?_, hvs, .cons ⟨g.inside, g.first, value p.1, hcollapses, hv, ?_⟩ hlogs⟩
      · rwa [List.append_assoc] at hzs
      · rw [Group.last, Group.first]

theorem of_rounds (hvalue : Valued ts value) {logs : List (List Event)} (hrounds : Rounds logs ts us) :
    ∃ done xs, Progress value ts done xs ∧ xs.map Prod.fst = us ∧ List.Forall₂ (GroupLog ts) done logs :=
  (start ts).rounds hvalue hrounds (List.zipIdx_map_fst 0 ts)

theorem mem_tokens (h : Progress value ts (matchedPairs ts) xs) (ht : t.isParenthesis) :
    t ∈ xs.map Prod.fst ↔ ∃ i, (t, i) ∈ leftOver ts := by
  rw [leftOver, ← h.parentheses, List.mem_map]
  constructor
  · rintro ⟨⟨t, i⟩, hx, rfl⟩
    exact ⟨i, List.mem_filter.mpr ⟨hx, ht⟩⟩
  · rintro ⟨i, hx⟩
    exact ⟨(t, i), (List.mem_filter.mp hx).1, rfl⟩

theorem filter_tokens (h : Progress value ts (matchedPairs ts) xs) :
    (xs.map Prod.fst).filter Token.isParenthesis = (leftOver ts).map Prod.fst := by
  rw [List.filter_map, leftOver, ← h.parentheses]
  rfl

end Progress

/-- How the rounds end that have replaced the groups of certain pairs. -/
inductive Settles (value : Nat → Float) (ts : List Token) (done : List (Nat × Nat)) (r : Resolution) : Prop
  | used {xs : List (Token × Nat)} (progress : Progress value ts done xs) (tokens : xs.map Prod.fst = r.tokens)
      (pairs : matchedPairs ts = done) (kinds : ¬ (.opening ∈ r.tokens ∧ .closing ∈ r.tokens)) (failure : r.failure = none)
  | crossed {xs : List (Token × Nat)} (progress : Progress value ts done xs) (tokens : xs.map Prod.fst = r.tokens)
      (pairs : matchedPairs ts = done) (kinds : .opening ∈ r.tokens ∧ .closing ∈ r.tokens)
      (unmatched : Unmatched r.tokens) (failure : r.failure = some .unbalancedParentheses)
  | failed {xs : List (Token × Nat)} {p : Nat × Nat} {rest : List (Nat × Nat)} {e : EvalError}
      (progress : Progress value ts done xs) (tokens : xs.map Prod.fst = r.tokens)
      (pairs : matchedPairs ts = done ++ p :: rest) (outcome : GroupOutcome ts p (.error e)) (sequential : e.Sequential)
      (failure : r.failure = some e)

theorem exists_settles (hvalue : Valued ts value) :
    ∃ logs done, Rounds logs ts (resolve ts).tokens ∧ List.Forall₂ (GroupLog ts) done logs ∧
      Settles value ts done (resolve ts) := by
  obtain ⟨logs, us, hrounds, hend⟩ := exists_rounds ts
  obtain ⟨done, xs, hprogress, rfl, hlogs⟩ := Progress.of_rounds hvalue hrounds
  have hpairs (hfind : Group.find? (xs.map Prod.fst) = none) : matchedPairs ts = done := by
    rw [hprogress.pairs, Matching.pairs_of_unmatched (Group.find?_eq_none_iff.mp hfind), List.append_nil]
  rcases hend with ⟨hsettled, hresolve⟩ | ⟨last, e, hfailed, hresolve⟩
  · rw [hresolve]
    exact ⟨logs, done, hrounds, hlogs, .used hprogress rfl (hpairs (Round.find?_of_settled hsettled))
      (Round.not_both_of_settled hsettled) rfl⟩
  · rw [hresolve]
    refine ⟨logs, done, hrounds, hlogs, ?_⟩
    rcases Round.exists_of_failed hfailed with ⟨ho, hc, hfind, rfl, -⟩ | ⟨g, hg, he, -⟩
    · exact .crossed hprogress rfl (hpairs hfind) ⟨ho, hc⟩ (Group.find?_eq_none_iff.mp hfind) rfl
    · obtain ⟨p, rest, hp, hcollapses, -⟩ := hprogress.group hg
      have hnext : matchedPairs ts = done ++ p :: rest := by rw [hprogress.pairs, hp]
      exact .failed hprogress rfl hnext ⟨g.inside, hcollapses, he⟩ (sequential_of_reduce he) rfl

namespace Settles

variable {r : Resolution} (h : Settles value ts done r)

include h

theorem tokens_eq : r.tokens = withValues value done ts := by
  cases h with
  | used progress tokens | crossed progress tokens | failed progress tokens => rw [← tokens, progress.withValues]

theorem values : ∀ p ∈ done, GroupOutcome ts p (.ok (value p.1)) := by
  cases h with
  | used progress | crossed progress | failed progress => exact progress.values

theorem failure_eq_none_iff :
    r.failure = none ↔ (∀ p ∈ matchedPairs ts, ∃ v, GroupOutcome ts p (.ok v)) ∧
      ¬ ((∃ i, (.opening, i) ∈ leftOver ts) ∧ ∃ i, (.closing, i) ∈ leftOver ts) := by
  cases h with
  | used progress tokens pairs kinds failure =>
      subst pairs
      rw [← tokens, progress.mem_tokens rfl, progress.mem_tokens rfl] at kinds
      exact iff_of_true failure ⟨fun p hp => ⟨_, progress.values p hp⟩, kinds⟩
  | crossed progress tokens pairs kinds unmatched failure =>
      subst pairs
      rw [← tokens, progress.mem_tokens rfl, progress.mem_tokens rfl] at kinds
      exact iff_of_false (by simp [failure]) fun hall => hall.2 kinds
  | @failed xs p rest e progress tokens pairs outcome sequential failure =>
      refine iff_of_false (by simp [failure]) fun hall => ?_
      obtain ⟨v, hv⟩ := hall.1 p (by simp [pairs])
      cases hv.unique outcome

theorem all_replaced (hfailure : ∀ e, r.failure = some e → e = .unbalancedParentheses) :
    matchedPairs ts = done ∧ r.tokens.filter Token.isParenthesis = (leftOver ts).map Prod.fst := by
  cases h with
  | used progress tokens pairs | crossed progress tokens pairs =>
      subst pairs
      rw [← tokens, progress.filter_tokens]
      exact ⟨rfl, rfl⟩
  | failed _ _ _ _ sequential failure =>
      cases hfailure _ failure
      cases sequential

theorem unmatched (hfailure : r.failure = some .unbalancedParentheses) : Unmatched r.tokens := by
  cases h with
  | used _ _ _ _ failure => simp [failure] at hfailure
  | crossed _ _ _ _ unmatched => exact unmatched
  | failed _ _ _ _ sequential failure =>
      rw [failure] at hfailure
      cases hfailure
      cases sequential

theorem exists_failed {e : EvalError} (hfailure : r.failure = some e) (he : e ≠ .unbalancedParentheses) :
    ∃ p ∈ matchedPairs ts, GroupOutcome ts p (.error e) ∧ (matchedPairs ts).filter (·.2 < p.2) = done := by
  cases h with
  | used _ _ _ _ failure => simp [failure] at hfailure
  | crossed _ _ _ _ _ failure =>
      rw [failure] at hfailure
      cases hfailure
      exact absurd rfl he
  | @failed _ p _ _ _ _ pairs outcome _ failure =>
      rw [failure] at hfailure
      cases hfailure
      exact ⟨p, by simp [pairs], outcome, filter_matchedPairs pairs⟩

end Settles

/-- The rounds of `resolve` take the pairs that a stack finds one by one, in the order of their closing parentheses. They
end without an error just when all groups have a value and the parentheses without a partner are of one kind at most. If
no group fails, each outermost one has given way to its value and all else is as it was. If one does, this is so of the
groups that close before it and of no others. -/
theorem resolve_by_matching (ts : List Token) :
    ∃ value : Nat → Float, Valued ts value ∧
      (matchedPairs ts).Pairwise (fun p q => p.2 < q.2) ∧
      (∀ logs us, Rounds logs ts us →
        List.Forall₂ (GroupLog ts) ((matchedPairs ts).take logs.length) logs ∧
          us = withValues value ((matchedPairs ts).take logs.length) ts) ∧
      ((resolve ts).failure = none ↔
        (∀ p ∈ matchedPairs ts, ∃ v, GroupOutcome ts p (.ok v)) ∧
          ¬ ((∃ i, (.opening, i) ∈ leftOver ts) ∧ ∃ i, (.closing, i) ∈ leftOver ts)) ∧
      ((∀ e, (resolve ts).failure = some e → e = .unbalancedParentheses) →
        (∀ p ∈ matchedPairs ts, GroupOutcome ts p (.ok (value p.1))) ∧
          (resolve ts).tokens = withValues value (matchedPairs ts) ts ∧
          (resolve ts).tokens.filter Token.isParenthesis = (leftOver ts).map Prod.fst ∧
          ∃ logs, Rounds logs ts (resolve ts).tokens ∧ logs.length = (matchedPairs ts).length) ∧
      ((resolve ts).failure = some .unbalancedParentheses → Unmatched (resolve ts).tokens) ∧
      ∀ e, (resolve ts).failure = some e → e ≠ .unbalancedParentheses →
        ∃ p ∈ matchedPairs ts, GroupOutcome ts p (.error e) ∧
          (∀ q ∈ matchedPairs ts, q.2 < p.2 → GroupOutcome ts q (.ok (value q.1))) ∧
          (resolve ts).tokens = withValues value ((matchedPairs ts).filter (·.2 < p.2)) ts ∧
          ∃ logs, Rounds logs ts (resolve ts).tokens ∧ logs.length = ((matchedPairs ts).filter (·.2 < p.2)).length := by
  obtain ⟨value, hvalue⟩ := exists_valued ts
  obtain ⟨logs, done, hrounds, hlogs, hsettles⟩ := exists_settles hvalue
  refine ⟨value, hvalue, sorted_matchedPairs ts, fun logs us hrounds => ?_, hsettles.failure_eq_none_iff, fun hfailure => ?_,
    hsettles.unmatched, fun e hfailure he => ?_⟩
  · obtain ⟨done, xs, hprogress, rfl, hlogs⟩ := Progress.of_rounds hvalue hrounds
    rw [hprogress.pairs, ← hlogs.length_eq, List.take_left]
    exact ⟨hlogs, hprogress.withValues⟩
  · obtain ⟨rfl, hfilter⟩ := hsettles.all_replaced hfailure
    exact ⟨hsettles.values, hsettles.tokens_eq, hfilter, logs, hrounds, hlogs.length_eq.symm⟩
  · obtain ⟨p, hp, houtcome, rfl⟩ := hsettles.exists_failed hfailure he
    refine ⟨p, hp, houtcome, fun q hq hlt => ?_, hsettles.tokens_eq, logs, hrounds, hlogs.length_eq.symm⟩
    exact hsettles.values q (List.mem_filter.mpr ⟨hq, decide_eq_true hlt⟩)

theorem resolve_crossed_and_empty :
    (∃ value : Nat → Float, value 1 = 1.0 ∧
      GroupLog [.closing, .opening, .literal "1", .closing, .opening, .literal "x"] (1, 3) [.resolved 1 3 1.0] ∧
      (resolve [.closing, .opening, .literal "1", .closing, .opening, .literal "x"]).tokens =
        withValues value [(1, 3)] [.closing, .opening, .literal "1", .closing, .opening, .literal "x"] ∧
      Unmatched (resolve [.closing, .opening, .literal "1", .closing, .opening, .literal "x"]).tokens) ∧
    ∃ value : Nat → Float, value 0 = 1.0 ∧
      (resolve [.opening, .literal "1", .closing, .opening, .closing]).tokens =
        withValues value [(0, 2)] [.opening, .literal "1", .closing, .opening, .closing] := by
  have hone : (reduce [.literal "1"]).outcome = .ok 1.0 := by decide +kernel
  have hcollapses : Collapses [.literal "1"] [.literal "1"] := .singleton rfl
  constructor
  · obtain ⟨value, hvalue, -, hrounds, -, hall, hunmatched, -⟩ :=
      resolve_by_matching [.closing, .opening, .literal "1", .closing, .opening, .literal "x"]
    have hround : Rounds [[.resolved 1 3 1.0]] [.closing, .opening, .literal "1", .closing, .opening, .literal "x"]
        [.closing, .value 1.0, .opening, .literal "x"] := .round (by decide +kernel) (.refl _)
    have hcrossed : (resolve [.closing, .opening, .literal "1", .closing, .opening, .literal "x"]).failure =
        some .unbalancedParentheses := by decide +kernel
    obtain ⟨-, htokens, -⟩ := hall fun e he => Option.some.inj (he.symm.trans hcrossed)
    obtain ⟨hlog, -⟩ := List.forall₂_cons.mp (hrounds _ _ hround).1
    exact ⟨value, hvalue (1, 3) (by decide) 1.0 ⟨_, hcollapses, hone⟩, hlog, htokens, hunmatched hcrossed⟩
  · obtain ⟨value, hvalue, -, -, -, -, -, hfailed⟩ :=
      resolve_by_matching [.opening, .literal "1", .closing, .opening, .closing]
    obtain ⟨p, hp, houtcome, -, htokens, -⟩ := hfailed .emptyExpression (by decide +kernel) (by decide)
    refine ⟨value, hvalue (0, 2) (by decide) 1.0 ⟨_, hcollapses, hone⟩, ?_⟩
    have hmem : p = (0, 2) ∨ p = (3, 4) := by
      rwa [show matchedPairs _ = [(0, 2), (3, 4)] by decide, List.mem_pair] at hp
    rcases hmem with rfl | rfl
    · cases houtcome.unique ⟨_, hcollapses, hone⟩
    · exact htokens

end Calculator
