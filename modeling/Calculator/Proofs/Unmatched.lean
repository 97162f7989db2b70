import Calculator.Group

namespace Calculator

/-- No opening parenthesis has a closing one anywhere after it. -/
def Unmatched (ts : List Token) : Prop := ts.Pairwise fun t u => ¬ (t = .opening ∧ u = .closing)

instance (ts : List Token) : Decidable (Unmatched ts) :=
  inferInstanceAs (Decidable (ts.Pairwise fun t u => ¬ (t = .opening ∧ u = .closing)))

def Flat (ts : List Token) : Prop := ∀ t ∈ ts, t.isParenthesis = false

instance (ts : List Token) : Decidable (Flat ts) :=
  inferInstanceAs (Decidable (∀ t ∈ ts, t.isParenthesis = false))

theorem flat_iff {ts : List Token} : Flat ts ↔ .opening ∉ ts ∧ .closing ∉ ts := by
  constructor
  · exact fun h => ⟨fun hm => Bool.noConfusion (h _ hm), fun hm => Bool.noConfusion (h _ hm)⟩
  · rintro ⟨ho, hc⟩ t ht
    cases t with
    | opening => exact absurd ht ho
    | closing => exact absurd ht hc
    | operand | operator | blank => rfl

theorem flat_singleton {t : Token} (h : t.isParenthesis = false) : Flat [t] := List.forall_mem_singleton.mpr h

theorem any_isParenthesis {ts : List Token} : ts.any Token.isParenthesis ↔ ¬ Flat ts := by
  simp [Flat]

theorem unmatched_append {ts us : List Token} (h : .opening ∉ ts) (h' : .closing ∉ us) :
    Unmatched (ts ++ us) := by
  refine List.pairwise_append.mpr ⟨?_, ?_, ?_⟩
  · exact List.pairwise_of_forall_mem_list fun t ht u _ hp => h (hp.1 ▸ ht)
  · exact List.pairwise_of_forall_mem_list fun t _ u hu hp => h' (hp.2 ▸ hu)
  · exact fun t ht u _ hp => h (hp.1 ▸ ht)

theorem unmatched_cons {t : Token} {ts : List Token} :
    Unmatched (t :: ts) ↔ (t = .opening → .closing ∉ ts) ∧ Unmatched ts := by
  rw [Unmatched, List.pairwise_cons, Unmatched]
  refine and_congr_left fun _ => ⟨fun h ht hc => h _ hc ⟨ht, rfl⟩, fun h u hu hp => h hp.1 (hp.2 ▸ hu)⟩

namespace Group

theorem startingAt?_closing {inside : List Token} (h : Flat inside) (after : List Token) :
    startingAt? (inside ++ .closing :: after) = some ⟨[], inside, after⟩ := by
  have hp : ∀ t ∈ inside, (!t.isParenthesis) = true := fun t ht => by rw [h t ht]; rfl
  have hd : (inside ++ .closing :: after).dropWhile (!·.isParenthesis) = .closing :: after := by
    rw [List.dropWhile_append_of_pos hp]
    rfl
  have ht : (inside ++ .closing :: after).takeWhile (!·.isParenthesis) = inside := by
    rw [List.takeWhile_append_of_pos hp, List.takeWhile_cons_of_neg (by decide), List.append_nil]
  rw [startingAt?, hd, ht]

theorem startingAt?_opening {ts : List Token} (h : .closing ∉ ts) (us : List Token) :
    startingAt? (ts ++ .opening :: us) = none := by
  have hd : ∃ vs, (ts ++ .opening :: us).dropWhile (!·.isParenthesis) = .opening :: vs := by
    induction ts with
    | nil => exact ⟨us, rfl⟩
    | cons t ts ih =>
        cases t with
        | opening => exact ⟨_, rfl⟩
        | closing => exact absurd List.mem_cons_self h
        | operand | operator | blank => exact ih fun hc => h (List.mem_cons_of_mem _ hc)
  obtain ⟨vs, hvs⟩ := hd
  rw [startingAt?, hvs]

theorem startingAt?_cons {t : Token} (h : t.isParenthesis = false) (ts : List Token) :
    startingAt? (t :: ts) = (startingAt? ts).map fun g => { g with inside := t :: g.inside } := by
  have ht : (!t.isParenthesis) = true := by rw [h]; rfl
  have hd : (t :: ts).dropWhile (!·.isParenthesis) = ts.dropWhile (!·.isParenthesis) := List.dropWhile_cons_of_pos ht
  have hw : (t :: ts).takeWhile (!·.isParenthesis) = t :: ts.takeWhile (!·.isParenthesis) := List.takeWhile_cons_of_pos ht
  rw [startingAt?, startingAt?, hd, hw]
  split <;> rfl

theorem before_startingAt? {ts : List Token} {g : Group} (h : startingAt? ts = some g) : g.before = [] := by
  unfold startingAt? at h
  split at h
  · cases h
    rfl
  · cases h

theorem find?_cons {t : Token} (h : t ≠ .opening) (ts : List Token) :
    find? (t :: ts) = (find? ts).map (prepend t) := by
  cases t with
  | opening => exact absurd rfl h
  | operand | operator | closing | blank => rfl

theorem find?_tokens {g : Group} (hb : Unmatched g.before) (hi : Flat g.inside) :
    find? g.tokens = some g := by
  obtain ⟨before, inside, after⟩ := g
  induction before with
  | nil =>
      change (startingAt? (inside ++ .closing :: after)).or _ = _
      rw [startingAt?_closing hi]
      rfl
  | cons t before ih =>
      obtain ⟨hc, hb⟩ := unmatched_cons.mp hb
      have hfind := ih hb hi
      change find? (t :: (mk before inside after).tokens) = _
      by_cases ht : t = .opening
      · subst ht
        change (startingAt? (before ++ .opening :: _)).or _ = _
        rw [startingAt?_opening (hc rfl), hfind]
        rfl
      · rw [find?_cons ht, hfind]
        rfl

theorem not_unmatched (g : Group) : ¬ Unmatched g.tokens := by
  intro h
  have hc := (unmatched_cons.mp (List.pairwise_append.mp h).2.1).1 rfl
  exact hc (List.mem_append_right _ List.mem_cons_self)

theorem find?_of_unmatched {ts : List Token} (h : Unmatched ts) : find? ts = none := by
  rw [Option.eq_none_iff_forall_ne_some]
  intro g hg
  rw [← (find?_eq_some hg).1] at h
  exact g.not_unmatched h

theorem closing_not_mem_of_startingAt? {ts us : List Token} (h : startingAt? (ts ++ us) = none) (hts : Unmatched ts) :
    .closing ∉ ts := by
  induction ts with
  | nil => exact List.not_mem_nil
  | cons t ts ih =>
      obtain ⟨hc, htail⟩ := unmatched_cons.mp hts
      cases t with
      | opening => simpa using hc rfl
      | closing => cases h
      | operand | operator | blank =>
          rw [List.cons_append, startingAt?_cons rfl, Option.map_eq_none_iff] at h
          simpa using ih h htail

theorem find?_eq_none_iff {ts : List Token} : find? ts = none ↔ Unmatched ts := by
  refine ⟨fun h => ?_, find?_of_unmatched⟩
  induction ts with
  | nil => exact List.Pairwise.nil
  | cons t ts ih =>
      by_cases ht : t = .opening
      · subst ht
        obtain ⟨hstart, hrest⟩ := Option.or_eq_none_iff.mp h
        have hts := ih (Option.map_eq_none_iff.mp hrest)
        rw [← List.append_nil ts] at hstart
        exact unmatched_cons.mpr ⟨fun _ => closing_not_mem_of_startingAt? hstart hts, hts⟩
      · rw [find?_cons ht] at h
        exact unmatched_cons.mpr ⟨fun ho => absurd ho ht, ih (Option.map_eq_none_iff.mp h)⟩

theorem unmatched_before {ts : List Token} {g : Group} (h : find? ts = some g) : Unmatched g.before := by
  induction ts generalizing g with
  | nil => cases h
  | cons t ts ih =>
      by_cases ht : t = .opening
      · subst ht
        rcases Option.or_eq_some_iff.mp h with h | ⟨hstart, h⟩
        · rw [before_startingAt? h]
          exact List.Pairwise.nil
        · obtain ⟨g, hg, rfl⟩ := Option.map_eq_some_iff.mp h
          rw [← (find?_eq_some hg).1] at hstart
          exact unmatched_cons.mpr ⟨fun _ => closing_not_mem_of_startingAt? hstart (ih hg), ih hg⟩
      · rw [find?_cons ht] at h
        obtain ⟨g, hg, rfl⟩ := Option.map_eq_some_iff.mp h
        exact unmatched_cons.mpr ⟨fun ho => absurd ho ht, ih hg⟩

end Group

namespace Round

variable {ts next : List Token} {events : List Event} {e : EvalError}

theorem exists_of_replaced (h : of ts = replaced events next) :
    ∃ (g : Group) (v : Float), Group.find? ts = some g ∧ (reduce g.inside).outcome = .ok v ∧
      events = (reduce g.inside).events ++ [.resolved g.first g.last v] ∧ next = g.replaceBy v := by
  unfold of at h
  split at h
  · split at h
    · cases h
    · next g hg =>
        dsimp only at h
        split at h
        · cases h
        · next v hv =>
            cases h
            exact ⟨g, v, hg, hv, rfl, rfl⟩
  · cases h

theorem of_eq_replaced (h : of ts = replaced events next) :
    ∃ (g : Group) (v : Float), g.tokens = ts ∧ (reduce g.inside).outcome = .ok v ∧ next = g.replaceBy v := by
  obtain ⟨g, v, hg, hv, -, hnext⟩ := exists_of_replaced h
  exact ⟨g, v, (Group.find?_eq_some hg).1, hv, hnext⟩

theorem exists_of_failed (h : of ts = failed events e) :
    (.opening ∈ ts ∧ .closing ∈ ts ∧ Group.find? ts = none ∧ e = .unbalancedParentheses ∧ events = []) ∨
      ∃ g : Group, Group.find? ts = some g ∧ (reduce g.inside).outcome = .error e ∧
        events = (reduce g.inside).events := by
  unfold of at h
  split at h
  · next hm =>
      split at h
      · next hg =>
          cases h
          exact .inl ⟨hm.1, hm.2, hg, rfl, rfl⟩
      · next g hg =>
          dsimp only at h
          split at h
          · next he =>
              cases h
              exact .inr ⟨g, hg, he, rfl⟩
          · cases h
  · cases h

theorem not_both_of_settled (h : of ts = settled) : ¬ (.opening ∈ ts ∧ .closing ∈ ts) := by
  unfold of at h
  split at h
  · split at h
    · cases h
    · dsimp only at h
      split at h <;> cases h
  · assumption

theorem find?_of_settled (h : of ts = settled) : Group.find? ts = none := by
  refine Group.find?_of_unmatched (List.pairwise_of_forall_mem_list fun t ht u hu hp => ?_)
  exact not_both_of_settled h ⟨hp.1 ▸ ht, hp.2 ▸ hu⟩

end Round

end Calculator
