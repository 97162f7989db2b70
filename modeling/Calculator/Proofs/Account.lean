import Calculator.Proofs.Log
import Calculator.Proofs.Positions

namespace Calculator

variable {ts us vs inside : List Token} {level : Precedence} {v : Float} {s : String}

def Token.isOperator (t : Token) : Bool := t matches .operator _

def Term.isOperator (t : Term) : Bool := t matches .operator _

namespace Event

def isCombined (e : Event) : Bool := e matches .combined _

def isResolved (e : Event) : Bool := e matches .resolved ..

def isFailed (e : Event) : Bool := e matches .failed ..

def transition? : Event → Option (Stage × Stage × Nat)
  | moved source target count => some (source, target, count)
  | _ => none

def saving : Event → Nat
  | resolved first last _ => last - first
  | _ => 0

/-- A record about no group and no failure. If it is about a use of an operator, the value is the one that the operator
gives. -/
def Plain : Event → Prop
  | combined c => c.operator.apply c.left c.right = .ok c.value
  | token _ | moved .. => True
  | resolved .. | failed .. => False

end Event

def saved (events : List Event) : Nat := events.foldr (fun e n => e.saving + n) 0

theorem saved_append (es fs : List Event) : saved (es ++ fs) = saved es + saved fs := by
  induction es with
  | nil => exact (Nat.zero_add _).symm
  | cons e es ih =>
      change e.saving + saved (es ++ fs) = e.saving + saved es + saved fs
      rw [ih, Nat.add_assoc]

theorem saved_eq_zero {es : List Event} (h : ∀ e ∈ es, e.saving = 0) : saved es = 0 := by
  induction es with
  | nil => rfl
  | cons e es ih =>
      obtain ⟨he, hes⟩ := List.forall_mem_cons.mp h
      change e.saving + saved es = 0
      rw [he, ih hes]

namespace Combinations

variable {es : List Event}

theorem plain (h : Combinations es) : ∀ e ∈ es, e.Plain := by
  intro e he
  obtain ⟨c, rfl, hc⟩ := h e he
  exact hc

theorem resolved_not_mem (h : Combinations es) (first last : Nat) (v : Float) : .resolved first last v ∉ es :=
  fun hm => (plain h _ hm).elim

theorem countP_isResolved (h : Combinations es) : es.countP Event.isResolved = 0 :=
  List.countP_eq_zero.mpr (h.forall_mem fun _ => Bool.false_ne_true)

theorem saved_eq (h : Combinations es) : saved es = 0 := saved_eq_zero (h.forall_mem fun _ => rfl)

theorem transitions (h : Combinations es) : es.filterMap Event.transition? = [] :=
  List.filterMap_eq_nil_iff.mpr (h.forall_mem fun _ => rfl)

end Combinations

theorem countP_run {p : Pass} {out : List Term} (h : (p.run level).outcome = .ok out) :
    (p.run level).events.countP Event.isCombined + out.countP Term.isOperator = p.terms.countP Term.isOperator := by
  fun_induction Pass.run level p with
  | case1 p hs =>
      cases h
      exact Nat.zero_add _
  | case2 p error hs => cases h
  | case3 p q hs ih =>
      rw [← Pass.terms_skipped hs]
      exact ih h
  | case4 p c q hs ih =>
      obtain ⟨rest, hp, -, -, rfl⟩ := Pass.step_eq_combined hs
      have hcount := ih h
      have hevents : (Traced.emit (.combined c) >>= fun _ => Pass.run level ⟨p.behind, .value c.value :: rest⟩).events =
          .combined c :: (Pass.run level ⟨p.behind, .value c.value :: rest⟩).events := Traced.events_bind_ok rfl _
      rw [hevents]
      simp only [Pass.terms, hp, List.countP_append, List.countP_cons, List.countP_reverse, Event.isCombined,
        Term.isOperator] at hcount ⊢
      simp only [ite_true, Bool.false_eq_true, ite_false] at hcount ⊢
      omega

theorem countP_ofTokens {terms : List Term} (h : Term.ofTokens ts = .ok terms) :
    terms.countP Term.isOperator = ts.countP Token.isOperator := by
  induction ts generalizing terms with
  | nil =>
      cases h
      rfl
  | cons t ts ih =>
      obtain ⟨x, hx, h⟩ := Outcome.bind_eq_ok.mp h
      obtain ⟨xs, hxs, h⟩ := Outcome.bind_eq_ok.mp h
      cases h
      have ht : x.isOperator = t.isOperator := by
        cases t with
        | operand y =>
            obtain ⟨v, -, rfl⟩ := Term.read_of_ofToken hx
            rfl
        | operator | opening | closing | blank =>
            cases hx
            rfl
      rw [List.countP_cons, List.countP_cons, ih hxs, ht]

theorem exists_passes (h : (reduce ts).outcome = .ok v) :
    ∃ terms products sums, Term.ofTokens ts = .ok terms ∧
      ((Pass.start terms).run .multiplicative).outcome = .ok products ∧
      ((Pass.start products).run .additive).outcome = .ok sums ∧ sums.countP Term.isOperator = 0 ∧
      (reduce ts).events =
        ((Pass.start terms).run .multiplicative).events ++ ((Pass.start products).run .additive).events := by
  rw [reduce_outcome] at h
  obtain ⟨terms, hterms, h⟩ := Outcome.bind_eq_ok.mp h
  obtain ⟨x, hx, h⟩ := Outcome.bind_eq_ok.mp h
  obtain ⟨products, hp, h⟩ := Outcome.bind_eq_ok.mp h
  obtain ⟨sums, hs, h⟩ := Outcome.bind_eq_ok.mp h
  obtain ⟨w, rfl⟩ := Pass.single_of_passes hx hp hs
  refine ⟨terms, products, _, hterms, hp, hs, rfl, ?_⟩
  have hpasses : (Precedence.levels.foldlM (fun terms level => (Pass.start terms).run level) terms).outcome =
      .ok [.value w] := by
    simp [Precedence.levels, hp]
    exact hs
  have hevents : (Precedence.levels.foldlM (fun terms level => (Pass.start terms).run level) terms).events =
      ((Pass.start terms).run .multiplicative).events ++ ((Pass.start products).run .additive).events := by
    simp [Precedence.levels, Traced.events_bind_ok hp]
  change (Traced.ofExcept (Term.ofTokens ts) >>= fun terms => Traced.ofExcept (Term.first terms) >>= fun _ =>
    Precedence.levels.foldlM (fun terms level => (Pass.start terms).run level) terms >>= fun sums =>
      Traced.ofExcept (Term.first sums)).events = _
  rw [Traced.events_bind_ok hterms, Traced.events_bind_ok hx, Traced.events_bind_ok hpasses, hevents]
  exact List.append_nil _

theorem countP_reduce (h : (reduce ts).outcome = .ok v) :
    (reduce ts).events.countP Event.isCombined = ts.countP Token.isOperator := by
  obtain ⟨terms, products, sums, hterms, hp, hs, hnone, hevents⟩ := exists_passes h
  have hproducts := countP_run hp
  have hsums := countP_run hs
  rw [hevents, List.countP_append, ← countP_ofTokens hterms]
  simp only [Pass.start, Pass.terms, List.reverse_nil, List.nil_append] at hproducts hsums
  simp only [Pass.start]
  omega

/-- What a log tells of the way from one sequence to another: no operator, no parenthesis and no other token has gone that
is not recorded. -/
structure Tally (events : List Event) (ts us : List Token) : Prop where
  operators : events.countP Event.isCombined + us.countP Token.isOperator = ts.countP Token.isOperator
  openings : events.countP Event.isResolved + us.count .opening = ts.count .opening
  length : saved events + us.length = ts.length
  transitions : events.filterMap Event.transition? = []
  records : ∀ e ∈ events, e.Plain ∨ e.isResolved

namespace Tally

variable {es fs : List Event}

theorem refl (ts : List Token) : Tally [] ts ts := ⟨Nat.zero_add _, Nat.zero_add _, Nat.zero_add _, rfl, nofun⟩

theorem trans (h : Tally es ts us) (h' : Tally fs us vs) : Tally (es ++ fs) ts vs := by
  obtain ⟨hoperators, hopenings, hlength, htransitions, hrecords⟩ := h
  obtain ⟨hoperators', hopenings', hlength', htransitions', hrecords'⟩ := h'
  refine ⟨?_, ?_, ?_, ?_, List.forall_mem_append.mpr ⟨hrecords, hrecords'⟩⟩
  · rw [List.countP_append]
    omega
  · rw [List.countP_append]
    omega
  · rw [saved_append]
    omega
  · rw [List.filterMap_append, htransitions, htransitions', List.append_nil]

theorem of_round (h : Round.of ts = .replaced es us) : Tally es ts us := by
  obtain ⟨g, v, hg, hv, rfl, rfl⟩ := Round.exists_of_replaced h
  obtain ⟨rfl, hinside⟩ := Group.find?_eq_some hg
  have hlog := combinations_reduce g.inside
  have hnone : g.inside.count .opening = 0 := List.count_eq_zero.mpr (flat_iff.mp hinside).1
  refine ⟨?_, ?_, ?_, ?_, ?_⟩
  · rw [List.countP_append, countP_reduce hv]
    simp [Group.tokens, Group.replaceBy, Event.isCombined, Token.isOperator, List.countP_append]
    omega
  · rw [List.countP_append, hlog.countP_isResolved]
    simp [Group.tokens, Group.replaceBy, Event.isResolved, List.count_append, hnone]
    omega
  · rw [saved_append, hlog.saved_eq]
    simp [Group.tokens, Group.replaceBy, saved, Event.saving, Group.first, Group.last]
    omega
  · rw [List.filterMap_append, hlog.transitions]
    rfl
  · exact List.forall_mem_append.mpr ⟨fun e he => .inl (hlog.plain e he), List.forall_mem_singleton.mpr (.inr rfl)⟩

theorem of_rounds {logs : List (List Event)} (h : Rounds logs ts us) : Tally logs.flatten ts us := by
  induction h with
  | refl ts => exact refl ts
  | round hround _ ih => exact (of_round hround).trans ih

end Tally

/-- The records of a group: the last ones are those of the operators in it, and there are as many groups before them as
pairs that close before this one. Among these are the groups that it contains. -/
structure GroupAccount (ts : List Token) (before earlier : List Event) (p : Nat × Nat) (inside : List Token)
    (first last : Nat) (v : Float) : Prop where
  pair : (matchedPairs ts)[earlier.countP Event.isResolved]? = some p
  content : Collapses (between ts p) inside
  value : (reduce inside).outcome = .ok v
  last : last = first + inside.length + 1
  own : before = earlier ++ (reduce inside).events
  combinations : ∃ cs : List Combination, (reduce inside).events = cs.map .combined ∧
    cs.length = inside.countP Token.isOperator
  boundary : ∀ c, earlier.getLast? ≠ some (.combined c)
  contained : ∀ q ∈ matchedPairs ts, p.1 < q.1 → q.2 < p.2 →
    q ∈ (matchedPairs ts).take (earlier.countP Event.isResolved)

theorem Combinations.exists_map {es : List Event} (h : Combinations es) :
    ∃ cs : List Combination, es = cs.map .combined := by
  induction es with
  | nil => exact ⟨[], rfl⟩
  | cons e es ih =>
      obtain ⟨⟨c, rfl, -⟩, hes⟩ := List.forall_mem_cons.mp h
      obtain ⟨cs, rfl⟩ := ih hes
      exact ⟨c :: cs, rfl⟩

theorem exists_combinations (h : (reduce ts).outcome = .ok v) :
    ∃ cs : List Combination, (reduce ts).events = cs.map .combined ∧ cs.length = ts.countP Token.isOperator := by
  obtain ⟨cs, hcs⟩ := (combinations_reduce ts).exists_map
  refine ⟨cs, hcs, ?_⟩
  rw [← countP_reduce h, hcs, List.countP_map]
  exact (List.countP_eq_length.mpr fun _ _ => rfl).symm

theorem exists_of_append_split {α : Type} {es fs before after : List α} {x : α} (h : es ++ fs = before ++ x :: after)
    (hx : x ∉ es) : ∃ middle, before = es ++ middle ∧ fs = middle ++ x :: after := by
  induction es generalizing before with
  | nil => exact ⟨before, rfl, h⟩
  | cons e es ih =>
      obtain ⟨hne, hes⟩ := not_or.mp (mt List.mem_cons.mpr hx)
      cases before with
      | nil => exact absurd (List.cons.inj h).1.symm hne
      | cons f before =>
          obtain ⟨rfl, htail⟩ := List.cons.inj h
          obtain ⟨middle, rfl, hfs⟩ := ih htail hes
          exact ⟨middle, rfl, hfs⟩

theorem exists_group_of_split {done : List (Nat × Nat)} {logs : List (List Event)} {rest before after : List Event}
    {first last : Nat} (h : List.Forall₂ (GroupLog ts) done logs) (hrest : .resolved first last v ∉ rest)
    (hsplit : logs.flatten ++ rest = before ++ .resolved first last v :: after) :
    ∃ middle p inside, done[middle.countP Event.isResolved]? = some p ∧ Collapses (between ts p) inside ∧
      (reduce inside).outcome = .ok v ∧ last = first + inside.length + 1 ∧ before = middle ++ (reduce inside).events ∧
      ∀ c, middle.getLast? ≠ some (.combined c) := by
  induction h generalizing before with
  | nil =>
      rw [show rest = _ from hsplit] at hrest
      exact absurd (List.mem_append_right before List.mem_cons_self) hrest
  | @cons p log done logs hlog hlogs ih =>
      obtain ⟨inside, first', v', hc, hv, rfl⟩ := hlog
      have hlog := combinations_reduce inside
      simp only [List.flatten_cons, List.append_assoc, List.singleton_append] at hsplit
      obtain ⟨later, rfl, htail⟩ := exists_of_append_split hsplit (hlog.resolved_not_mem first last v)
      -- Either this is the record of the first round, or that round lies before it and does not end in a combination.
      cases later with
      | nil =>
          obtain ⟨hgroup, -⟩ := List.cons.inj htail
          cases hgroup
          exact ⟨[], p, inside, rfl, hc, hv, rfl, List.append_nil _, nofun⟩
      | cons e later =>
          obtain ⟨rfl, hlater⟩ := List.cons.inj htail
          obtain ⟨middle, q, inside', hq, hc', hv', hlast, rfl, hboundary⟩ := ih hlater
          refine ⟨(reduce inside).events ++ .resolved first' (first' + inside.length + 1) v' :: middle, q, inside', ?_, hc',
            hv', hlast, by simp, fun c => ?_⟩
          · rw [List.countP_append, hlog.countP_isResolved, List.countP_cons_of_pos rfl, Nat.zero_add]
            exact hq
          · rw [List.getLast?_append, List.getLast?_cons]
            cases hmiddle : middle.getLast? with
            | none => exact nofun
            | some e => exact fun h => hboundary c (hmiddle.trans h)

/-- How a run ends when the groups of its tokens have given way: its last records, and its outcome. -/
inductive Ending (us : List Token) : List Event → Except EvalError Float → Prop
  | reduced {v : Float} : Flat us → (reduce us).outcome = .ok v →
      Ending us (.moved .resolvingParentheses .flat us.length ::
        ((reduce us).events ++ [.moved .flat .reduced us.length])) (.ok v)
  | failed {es : List Event} {e : EvalError} : (∀ x ∈ es, x.Plain) → Ending us es (.error e)

theorem Ending.plain {es : List Event} {x : Except EvalError Float} (h : Ending us es x) : ∀ e ∈ es, e.Plain := by
  cases h with
  | failed h => exact h
  | reduced =>
      refine List.forall_mem_cons.mpr ⟨trivial, List.forall_mem_append.mpr ⟨(combinations_reduce us).plain, ?_⟩⟩
      exact List.forall_mem_singleton.mpr trivial

namespace Evaluation

theorem exists_ending (source : String) (ts : List Token) :
    ∃ logs us rest, Rounds logs ts us ∧ Ending us rest (settle ⟨source, .resolvingParentheses, ts⟩).outcome ∧
      (settle ⟨source, .resolvingParentheses, ts⟩).events = logs.flatten ++ rest := by
  obtain ⟨logs, us, hrounds, hend⟩ := exists_rounds ts
  unfold settle
  dsimp only
  rcases hend with ⟨-, hresolve⟩ | ⟨last, e, hfailed, hresolve⟩
  · rw [hresolve]
    dsimp only
    split
    · exact ⟨logs, us, [], hrounds, .failed nofun, (List.append_nil _).symm⟩
    · next hany =>
        have hflat : Flat us := not_not.mp (mt any_isParenthesis.mpr hany)
        unfold finish
        dsimp only
        refine ⟨logs, us, _, hrounds, ?_, rfl⟩
        cases hreduce : (reduce us).outcome with
        | error e => exact .failed (List.forall_mem_cons.mpr ⟨trivial, (combinations_reduce us).plain⟩)
        | ok v => exact .reduced hflat hreduce
  · rw [hresolve]
    refine ⟨logs, us, last, hrounds, .failed ?_, rfl⟩
    rcases Round.exists_of_failed hfailed with ⟨-, -, -, -, rfl⟩ | ⟨g, -, -, rfl⟩
    · exact nofun
    · exact (combinations_reduce g.inside).plain

end Evaluation

def failureRecords (s : String) : Except EvalError Float → List Event
  | .ok _ => []
  | .error e => [.failed s e]

theorem events_evaluateTraced_run (s : String) :
    (evaluateTraced s).events = (Evaluation.new s).run.events ++ failureRecords s (evaluate? s) := by
  unfold evaluate? evaluateTraced
  dsimp only
  cases (Evaluation.new s).run.outcome with
  | error e => rfl
  | ok v => exact (List.append_nil _).symm

def openingRecords (s : String) (ts : List Token) : List Event :=
  (Scan.ofString s).lexemes.map .token ++
    [.moved .start .tokenized ts.length, .moved .tokenized .resolvingParentheses ts.length]

theorem plain_tokens (xs : List Lexeme) : ∀ e ∈ xs.map Event.token, e.Plain := List.forall_mem_map.mpr fun _ _ => trivial

theorem plain_openingRecords (s : String) (ts : List Token) : ∀ e ∈ openingRecords s ts, e.Plain := by
  refine List.forall_mem_append.mpr ⟨plain_tokens _, ?_⟩
  exact List.forall_mem_cons.mpr ⟨trivial, List.forall_mem_singleton.mpr trivial⟩

theorem getLast?_openingRecords (s : String) (ts : List Token) (c : Combination) :
    (openingRecords s ts).getLast? ≠ some (.combined c) := by
  rw [openingRecords, List.getLast?_append]
  exact nofun

theorem events_of_stray {e : EvalError} (h : tokenize s = .error e) :
    (Evaluation.new s).run.events = (Scan.ofString s).lexemes.map .token ∧ evaluate? s = .error e := by
  rw [evaluate?_eq_run]
  unfold Evaluation.run
  dsimp only
  rw [show (Scan.ofString (Evaluation.new s).source).outcome = _ from h]
  exact ⟨rfl, rfl⟩

theorem exists_account (h : tokenize s = .ok ts) :
    ∃ logs us rest, Rounds logs ts us ∧ Ending us rest (evaluate? s) ∧
      (Evaluation.new s).run.events = openingRecords s ts ++ (logs.flatten ++ rest) := by
  obtain ⟨logs, us, rest, hrounds, hend, hevents⟩ := Evaluation.exists_ending s ts
  refine ⟨logs, us, rest, hrounds, ?_⟩
  rw [evaluate?_eq_run]
  unfold Evaluation.run
  dsimp only
  rw [show (Scan.ofString (Evaluation.new s).source).outcome = _ from h]
  refine ⟨hend, ?_⟩
  dsimp only
  rw [openingRecords, List.append_assoc, ← hevents]
  rfl

theorem events_run_cases (s : String) : ∀ e ∈ (Evaluation.new s).run.events, e.Plain ∨ e.isResolved := by
  have hplain {es : List Event} (h : ∀ e ∈ es, e.Plain) : ∀ e ∈ es, e.Plain ∨ e.isResolved := fun e he => .inl (h e he)
  cases hs : tokenize s with
  | error e =>
      rw [(events_of_stray hs).1]
      exact hplain (plain_tokens _)
  | ok ts =>
      obtain ⟨logs, us, rest, hrounds, hend, hrun⟩ := exists_account hs
      rw [hrun]
      refine List.forall_mem_append.mpr ⟨hplain (plain_openingRecords s ts), ?_⟩
      exact List.forall_mem_append.mpr ⟨(Tally.of_rounds hrounds).records, hplain hend.plain⟩

theorem not_failed_of_run (s : String) : ∀ e ∈ (Evaluation.new s).run.events, e.isFailed = false := by
  intro e he
  rcases events_run_cases s e he with h | h
  · cases e with
    | failed => exact h.elim
    | token | moved | combined | resolved => rfl
  · cases e with
    | resolved => rfl
    | token | moved | combined | failed => cases h

theorem tokens_of_tokenize (h : tokenize s = .ok ts) : (Scan.ofString s).lexemes.map Lexeme.token = ts := by
  unfold tokenize Scan.outcome at h
  split at h
  · cases h
  · exact Except.ok.inj h

/-- What a log of an evaluation holds that comes to a value. -/
structure Complete (ts : List Token) (events : List Event) : Prop where
  tokens : (events.filterMap Event.lexeme?).map Lexeme.token = ts
  combinations : events.countP Event.isCombined = ts.countP Token.isOperator
  groups : events.countP Event.isResolved = ts.count .opening
  moves : ∃ count, count + saved events = ts.length ∧
    events.filterMap Event.transition? = [(.start, .tokenized, ts.length), (.tokenized, .resolvingParentheses, ts.length),
      (.resolvingParentheses, .flat, count), (.flat, .reduced, count)]
  failures : ∀ e ∈ events, e.isFailed = false

theorem complete_of_tally {log : List Event} {v : Float} (hs : tokenize s = .ok ts) (hlog : Tally log ts us)
    (hflat : Flat us) (hv : (reduce us).outcome = .ok v) (hevents : (evaluateTraced s).events =
      openingRecords s ts ++ (log ++ .moved .resolvingParentheses .flat us.length ::
        ((reduce us).events ++ [.moved .flat .reduced us.length])))
    (hfailures : ∀ e ∈ (evaluateTraced s).events, e.isFailed = false) : Complete ts (evaluateTraced s).events := by
  obtain ⟨hoperators, hopenings, hlength, htransitions, -⟩ := hlog
  have hlast := combinations_reduce us
  have hcount := countP_reduce hv
  have hnone : us.count .opening = 0 := List.count_eq_zero.mpr (flat_iff.mp hflat).1
  refine ⟨?_, ?_, ?_, ⟨us.length, ?_, ?_⟩, hfailures⟩
  · rw [lexemes_evaluateTraced]
    exact tokens_of_tokenize hs
  · rw [hevents]
    simp [openingRecords, Function.comp_def, Event.isCombined, hcount]
    omega
  · rw [hevents]
    simp [openingRecords, Function.comp_def, Event.isResolved, hlast.countP_isResolved]
    omega
  · rw [hevents]
    have htokens : saved ((Scan.ofString s).lexemes.map .token) = 0 :=
      saved_eq_zero (List.forall_mem_map.mpr fun _ _ => rfl)
    have hopening : saved (openingRecords s ts) = 0 := by
      rw [openingRecords, saved_append, htokens]
      rfl
    have hmoved (es : List Event) : saved (.moved .resolvingParentheses .flat us.length :: es) = saved es := Nat.zero_add _
    have hend : saved [.moved .flat .reduced us.length] = 0 := rfl
    rw [saved_append, saved_append, hopening, hmoved, saved_append, hlast.saved_eq, hend]
    omega
  · rw [hevents]
    simp [openingRecords, Function.comp_def, Event.transition?, hlast.transitions, htransitions]

theorem complete_of_evaluate? {v : Float} (h : evaluate? s = .ok v) :
    ∃ ts, tokenize s = .ok ts ∧ Complete ts (evaluateTraced s).events := by
  have hevents := events_evaluateTraced_run s
  rw [h, failureRecords, List.append_nil] at hevents
  cases hs : tokenize s with
  | error e =>
      rw [(events_of_stray hs).2] at h
      cases h
  | ok ts =>
      obtain ⟨logs, us, rest, hrounds, hend, hrun⟩ := exists_account hs
      rw [h] at hend
      cases hend with
      | reduced hflat hv =>
          refine ⟨ts, rfl, complete_of_tally hs (.of_rounds hrounds) hflat hv (hevents.trans hrun) ?_⟩
          rw [hevents]
          exact not_failed_of_run s

theorem mem_take_of_lt {k : Nat} {p q : Nat × Nat} (hp : (matchedPairs ts)[k]? = some p) (hq : q ∈ matchedPairs ts)
    (h : q.2 < p.2) : q ∈ (matchedPairs ts).take k := by
  obtain ⟨hk, rfl⟩ := List.getElem?_eq_some_iff.mp hp
  have hsplit : matchedPairs ts = (matchedPairs ts).take k ++ (matchedPairs ts)[k] :: (matchedPairs ts).drop (k + 1) := by
    rw [List.getElem_cons_drop, List.take_append_drop]
  rw [← filter_matchedPairs hsplit]
  exact List.mem_filter.mpr ⟨hq, decide_eq_true h⟩

theorem exists_groupAccount {before after : List Event} {first last : Nat}
    (h : (evaluateTraced s).events = before ++ .resolved first last v :: after) :
    ∃ ts earlier p inside, tokenize s = .ok ts ∧ GroupAccount ts before earlier p inside first last v := by
  have hplain {es : List Event} (hes : ∀ e ∈ es, e.Plain) : .resolved first last v ∉ es := hes _
  have hlast : .resolved first last v ∉ failureRecords s (evaluate? s) := by
    cases evaluate? s with
    | ok w => exact List.not_mem_nil
    | error e => exact fun hm => nomatch List.mem_singleton.mp hm
  rw [events_evaluateTraced_run] at h
  cases hs : tokenize s with
  | error e =>
      rw [(events_of_stray hs).1] at h
      obtain ⟨middle, -, hmiddle⟩ := exists_of_append_split h (hplain (plain_tokens _))
      rw [hmiddle] at hlast
      exact absurd (List.mem_append_right middle List.mem_cons_self) hlast
  | ok ts =>
      obtain ⟨logs, us, rest, hrounds, hend, hrun⟩ := exists_account hs
      obtain ⟨value, hvalue⟩ := exists_valued ts
      obtain ⟨done, xs, hprogress, -, hlogs⟩ := Progress.of_rounds hvalue hrounds
      rw [hrun, List.append_assoc, List.append_assoc] at h
      obtain ⟨later, rfl, hlater⟩ := exists_of_append_split h (hplain (plain_openingRecords s ts))
      have hrest : .resolved first last v ∉ rest ++ failureRecords s (evaluate? s) :=
        fun hm => (List.mem_append.mp hm).elim (hplain hend.plain) hlast
      obtain ⟨middle, p, inside, hp, hc, hv, rfl, rfl, hboundary⟩ := exists_group_of_split hlogs hrest hlater
      have hcount : (openingRecords s ts ++ middle).countP Event.isResolved = middle.countP Event.isResolved := by
        simp [openingRecords, Function.comp_def, Event.isResolved]
      have hpair : (matchedPairs ts)[middle.countP Event.isResolved]? = some p := by
        rw [hprogress.pairs]
        exact (List.getElem?_append_left (List.getElem?_eq_some_iff.mp hp).1).trans hp
      refine ⟨ts, openingRecords s ts ++ middle, p, inside, rfl, ?_, hc, hv, rfl, (List.append_assoc _ _ _).symm,
        exists_combinations hv, fun c => ?_, ?_⟩
      · rw [hcount]
        exact hpair
      · rw [List.getLast?_append]
        cases hmiddle : middle.getLast? with
        | none => exact getLast?_openingRecords s ts c
        | some e => exact fun h => hboundary c (hmiddle.trans h)
      · rw [hcount]
        exact fun q hq _ hlt => mem_take_of_lt hpair hq hlt

/-- The log accounts for all that an evaluation does. If it comes to a value, each token, operator and group of the source is
recorded once, and so are the moves, with the numbers of tokens that the groups leave. Whatever it comes to, the record of a
group follows those of its own operators, and a failure is recorded once and last. -/
theorem log_accounts (s : String) :
    (∀ v, evaluate? s = .ok v → ∃ ts, tokenize s = .ok ts ∧ Complete ts (evaluateTraced s).events) ∧
      (∀ before first last v after, (evaluateTraced s).events = before ++ .resolved first last v :: after →
        ∃ ts earlier p inside, tokenize s = .ok ts ∧ GroupAccount ts before earlier p inside first last v) ∧
      (∀ c : Combination, .combined c ∈ (evaluateTraced s).events → c.operator.apply c.left c.right = .ok c.value) ∧
      ∃ es, (∀ e ∈ es, e.isFailed = false) ∧ (evaluateTraced s).events = es ++ failureRecords s (evaluate? s) := by
  have hevents := events_evaluateTraced_run s
  refine ⟨fun v => complete_of_evaluate?, fun before first last v after => exists_groupAccount, fun c hc => ?_,
    _, not_failed_of_run s, hevents⟩
  rw [hevents] at hc
  rcases List.mem_append.mp hc with hc | hc
  · rcases events_run_cases s _ hc with hplain | hresolved
    · exact hplain
    · cases hresolved
  · cases h : evaluate? s with
    | ok v =>
        rw [h] at hc
        cases hc
    | error e =>
        rw [h] at hc
        cases List.mem_singleton.mp hc

theorem log_accounts_nested :
    (∃ ts, tokenize "2*((1)+3)" = .ok ts ∧ Complete ts (evaluateTraced "2*((1)+3)").events) ∧
      (∃ ts earlier p inside, tokenize "2*((1)+3)" = .ok ts ∧
        GroupAccount ts ((evaluateTraced "2*((1)+3)").events.take 13) earlier p inside 2 6 4.0) ∧
      Operator.add.apply 1.0 3.0 = .ok 4.0 := by
  obtain ⟨hcomplete, hgroups, hcombinations, -⟩ := log_accounts "2*((1)+3)"
  refine ⟨hcomplete 8.0 (by decide +kernel), ?_, hcombinations ⟨1.0, .add, 3.0, 4.0⟩ (by decide +kernel)⟩
  exact hgroups _ 2 6 4.0 ((evaluateTraced "2*((1)+3)").events.drop 14) (by decide +kernel)

end Calculator
