import Calculator.Proofs.Matching

namespace Calculator

variable {ts : List Token} {xs : List (Token × Nat)} {g : Group} {p q : Nat × Nat} {i : Nat}

/-- The opening parentheses among the first `n` tokens that no closing one among these belongs to. -/
def unclosed (ts : List Token) (n : Nat) : List Nat := (Matching.start.run (ts.take n).zipIdx).opened

/-- The parentheses at `first` and `last` enclose the group that closes first. -/
structure Innermost (ts : List Token) (first last : Nat) : Prop where
  opening : ts[first]? = some .opening
  closing : ts[last]? = some .closing
  lt : first < last
  least : ∀ i j, i < j → ts[i]? = some .opening → ts[j]? = some .closing → last ≤ j
  greatest : ∀ i < last, ts[i]? = some .opening → i ≤ first
  between : ∀ i t, first < i → i < last → ts[i]? = some t → t.isParenthesis = false
  before : ∀ i t, i < first → ts[i]? = some t → t.isParenthesis →
    t = .opening ∧ i ∈ unclosed ts first ∨ t = .closing ∧ ∀ p ∈ matchedPairs ts, p.2 ≠ i

theorem unmatched_iff_getElem? :
    Unmatched ts ↔ ∀ i j : Nat, i < j → ts[i]? = some .opening → ts[j]? ≠ some .closing := by
  rw [Unmatched, List.pairwise_iff_getElem]
  constructor
  · intro h i j hij hi hj
    obtain ⟨hilt, hi⟩ := List.getElem?_eq_some_iff.mp hi
    obtain ⟨hjlt, hj⟩ := List.getElem?_eq_some_iff.mp hj
    exact h i j hilt hjlt hij ⟨hi, hj⟩
  · rintro h i j hilt hjlt hij ⟨hi, hj⟩
    exact h i j hij (List.getElem?_eq_some_iff.mpr ⟨hilt, hi⟩) (List.getElem?_eq_some_iff.mpr ⟨hjlt, hj⟩)

theorem le_of_head?_matchedPairs (hp : (matchedPairs ts).head? = some p) (hq : q ∈ matchedPairs ts) : p.2 ≤ q.2 := by
  obtain ⟨rest, hrest⟩ := List.head?_eq_some_iff.mp hp
  have hsorted := sorted_matchedPairs ts
  rw [hrest] at hq hsorted
  rcases List.mem_cons.mp hq with rfl | hq
  · exact Nat.le_refl _
  · exact Nat.le_of_lt ((List.pairwise_cons.mp hsorted).1 q hq)

theorem matchedPairs_of_unmatched (h : Unmatched ts) : matchedPairs ts = [] := by
  apply Matching.pairs_of_unmatched
  rwa [List.zipIdx_map_fst]

namespace Matching

theorem mem_opened_of_closing_not_mem (m : Matching) (h : .closing ∉ xs.map Prod.fst)
    (hi : i ∈ m.opened ∨ (.opening, i) ∈ xs) : i ∈ (m.run xs).opened := by
  induction xs generalizing m with
  | nil => exact hi.resolve_right List.not_mem_nil
  | cons x xs ih =>
      obtain ⟨t, j⟩ := x
      rw [List.map_cons, List.mem_cons, not_or] at h
      obtain ⟨ht, hxs⟩ := h
      rw [run_cons]
      apply ih _ hxs
      cases t with
      | closing => exact absurd rfl ht
      | opening => simpa [step, or_assoc, or_left_comm] using hi
      | operand | operator | blank => simpa [step] using hi

theorem mem_opened_of_unmatched (h : Unmatched (xs.map Prod.fst)) (hi : (.opening, i) ∈ xs) :
    i ∈ (start.run xs).opened := by
  induction xs with
  | nil => cases hi
  | cons x xs ih =>
      obtain ⟨t, j⟩ := x
      obtain ⟨hc, hxs⟩ := unmatched_cons.mp h
      rw [run_cons]
      cases t with
      | opening =>
          apply mem_opened_of_closing_not_mem _ (hc rfl)
          simpa [step, start] using hi
      | closing | operand | operator | blank =>
          apply ih hxs
          simpa using hi

end Matching

namespace Group

theorem getElem?_before (h : i < g.first) : g.tokens[i]? = g.before[i]? := List.getElem?_append_left h

theorem getElem?_first (g : Group) : g.tokens[g.first]? = some .opening := by simp [tokens, first]

theorem getElem?_inside (hfirst : g.first < i) (hlast : i < g.last) :
    g.tokens[i]? = g.inside[i - (g.first + 1)]? := by
  obtain ⟨k, rfl⟩ := Nat.exists_eq_add_of_lt hfirst
  have hk : k < g.inside.length := by
    simp only [first, last] at hlast
    omega
  have hindex : g.first + k + 1 - (g.first + 1) = k := by omega
  rw [hindex, tokens, first, Nat.add_assoc, List.getElem?_append_right (Nat.le_add_right _ _),
    Nat.add_sub_cancel_left, List.getElem?_cons_succ, List.getElem?_append_left hk]

theorem getElem?_last (g : Group) : g.tokens[g.last]? = some .closing := by
  rw [tokens, last, Nat.add_assoc, List.getElem?_append_right (Nat.le_add_right _ _), Nat.add_sub_cancel_left,
    List.getElem?_cons_succ, List.getElem?_append_right (Nat.le_refl _), Nat.sub_self]
  rfl

theorem head?_matchedPairs (hb : Unmatched g.before) (hi : Flat g.inside) :
    (matchedPairs g.tokens).head? = some (g.first, g.last) := by
  have hzip : g.tokens.zipIdx = g.before.zipIdx ++ (.opening, g.first) ::
      (g.inside.zipIdx (g.first + 1) ++ (.closing, g.last) :: g.after.zipIdx (g.last + 1)) := by
    simp only [tokens, List.zipIdx_append, List.zipIdx_cons, first, last, Nat.zero_add, Nat.add_right_comm]
  rw [← List.zipIdx_map_fst 0 g.before] at hb
  rw [← List.zipIdx_map_fst (g.first + 1) g.inside] at hi
  rw [matchedPairs, hzip, Matching.pairs_group hb hi 0]
  rfl

theorem innermost (hb : Unmatched g.before) (hi : Flat g.inside) : Innermost g.tokens g.first g.last := by
  have hlt : g.first < g.last := by
    simp only [first, last]
    omega
  have hflat (i : Nat) (t : Token) (hfirst : g.first < i) (hlast : i < g.last) (ht : g.tokens[i]? = some t) :
      t.isParenthesis = false := by
    rw [getElem?_inside hfirst hlast] at ht
    exact hi t (List.mem_of_getElem? ht)
  refine ⟨g.getElem?_first, g.getElem?_last, hlt, ?_, ?_, hflat, ?_⟩
  · intro i j hij hopening hclosing
    refine Nat.le_of_not_lt fun hj => ?_
    rcases Nat.lt_trichotomy j g.first with hbefore | rfl | hafter
    · rw [getElem?_before (hij.trans hbefore)] at hopening
      rw [getElem?_before hbefore] at hclosing
      exact unmatched_iff_getElem?.mp hb i j hij hopening hclosing
    · rw [getElem?_first] at hclosing
      cases hclosing
    · cases hflat j _ hafter hj hclosing
  · intro i hlast hopening
    refine Nat.le_of_not_lt fun hafter => ?_
    cases hflat i _ hafter hlast hopening
  · intro i t hbefore ht hp
    cases t with
    | operand | operator | blank => cases hp
    | opening =>
        refine .inl ⟨rfl, ?_⟩
        have htake : g.tokens.take g.first = g.before := List.take_left
        rw [getElem?_before hbefore] at ht
        rw [unclosed, htake]
        apply Matching.mem_opened_of_unmatched
        · rwa [List.zipIdx_map_fst]
        · exact List.mk_mem_zipIdx_iff_getElem?.mpr ht
    | closing =>
        refine .inr ⟨rfl, ?_⟩
        intro p hp' hpi
        have hle : g.last ≤ p.2 := le_of_head?_matchedPairs (head?_matchedPairs hb hi) hp'
        omega

end Group

/-- There is no group if no opening parenthesis has a closing one anywhere after it. Otherwise the group that is found
is that of the pair which a stack matches first: of the first closing parenthesis with an opening one before it, and of
the last opening one before that. -/
theorem find?_by_matching (ts : List Token) :
    (Group.find? ts = none ↔ ∀ i j : Nat, i < j → ts[i]? = some .opening → ts[j]? ≠ some .closing) ∧
      (Group.find? ts).map (fun g => (g.first, g.last)) = (matchedPairs ts).head? ∧
      ∀ g, Group.find? ts = some g → Innermost ts g.first g.last := by
  refine ⟨Group.find?_eq_none_iff.trans unmatched_iff_getElem?, ?_, ?_⟩
  · cases h : Group.find? ts with
    | none =>
        rw [matchedPairs_of_unmatched (Group.find?_eq_none_iff.mp h)]
        rfl
    | some g =>
        obtain ⟨rfl, hi⟩ := Group.find?_eq_some h
        exact (Group.head?_matchedPairs (Group.unmatched_before h) hi).symm
  · intro g h
    obtain ⟨rfl, hi⟩ := Group.find?_eq_some h
    exact Group.innermost (Group.unmatched_before h) hi

theorem find?_behind_unmatched :
    Innermost [.closing, .opening, .opening, .literal "1", .closing, .closing] 2 4 ∧
      (matchedPairs [.closing, .opening, .opening, .literal "1", .closing, .closing]).head? = some (2, 4) ∧
      Group.find? [.closing, .literal "1", .opening] = none := by
  have hfind : Group.find? [.closing, .opening, .opening, .literal "1", .closing, .closing] =
      some ⟨[.closing, .opening], [.literal "1"], [.closing]⟩ := by decide
  obtain ⟨-, hpair, hinnermost⟩ :=
    find?_by_matching [.closing, .opening, .opening, .literal "1", .closing, .closing]
  rw [hfind] at hpair
  refine ⟨hinnermost _ hfind, hpair.symm, (find?_by_matching _).1.mpr ?_⟩
  exact unmatched_iff_getElem?.mp (by decide)

end Calculator
