import Calculator.Proofs.Balance

namespace Calculator

/-- Every parenthesis has a partner, every group has a value, and the second sequence has these values in the place
of the groups of the first. -/
inductive Collapses : List Token → List Token → Prop
  | nil : Collapses [] []
  | token {t : Token} {ts us : List Token} : t.isParenthesis = false → Collapses ts us → Collapses (t :: ts) (t :: us)
  | group {g inside ts us : List Token} {v : Float} :
      Collapses g inside → (reduce inside).outcome = .ok v → Collapses ts us →
        Collapses (grouped g ++ ts) (.value v :: us)

/-- Some group has no value, although all groups in it have one. -/
def GroupFails (ts : List Token) : Prop :=
  ∃ before g after inside e,
    ts = before ++ (grouped g ++ after) ∧ Collapses g inside ∧ (reduce inside).outcome = .error e

variable {ts us vs ws g inside : List Token} {v : Float} {t : Token} {n m : Nesting} {e : EvalError}

namespace Collapses

theorem append (h : Collapses ts us) (h' : Collapses vs ws) : Collapses (ts ++ vs) (us ++ ws) := by
  induction h with
  | nil => exact h'
  | token ht _ ih => exact .token ht ih
  | group hg hv _ _ ih =>
      rw [List.append_assoc]
      exact .group hg hv ih

theorem singleton (h : t.isParenthesis = false) : Collapses [t] [t] := .token h .nil

theorem of_group (h : Collapses g inside) (hv : (reduce inside).outcome = .ok v) :
    Collapses (grouped g) [.value v] := by
  have hgroup := Collapses.group h hv .nil
  rwa [List.append_nil] at hgroup

theorem flat (h : Collapses ts us) : Flat us := by
  induction h with
  | nil => exact List.forall_mem_nil _
  | token ht _ ih => exact List.forall_mem_cons.mpr ⟨ht, ih⟩
  | group _ _ _ _ ih => exact List.forall_mem_cons.mpr ⟨rfl, ih⟩

end Collapses

namespace Nesting

theorem read_of_collapses (h : Collapses ts us) (n : Nesting) : n.read ts = .ok (n.append us) := by
  induction h generalizing n with
  | nil => exact congrArg Except.ok n.within_start.symm
  | @token t ts us ht _ ih =>
      rw [← List.singleton_append, read_append, read_flat (flat_singleton ht)]
      change (n.append [t]).read ts = _
      rw [ih, append_append]
      rfl
  | @group g inside ts us v _ hv _ ihg ih =>
      rw [read_append, read_grouped_of_read ihg, hv]
      change (n.append [.value v]).read ts = _
      rw [ih, append_append]
      rfl

/-- What has been read into a nesting: each open group starts with a parenthesis, and what stands in it is what has
been read since then, collapsed. The base is so as long as nothing is left over in it. -/
inductive Holds : List Token → Nesting → Prop
  | base {ts us : List Token} : (.closing ∉ us → Collapses ts us) → Holds ts ⟨us, []⟩
  | group {ts us base g : List Token} {gs : List (List Token)} :
      Holds ts ⟨base, gs⟩ → Collapses us g → Holds (ts ++ .opening :: us) ⟨base, g :: gs⟩

theorem Holds.append (h : Holds ts n) (hc : Collapses us vs) : Holds (ts ++ us) (n.append vs) := by
  cases h with
  | base hb =>
      refine .base fun hm => ?_
      exact (hb fun h => hm (List.mem_append_left vs h)).append hc
  | group hb hg =>
      rw [List.append_assoc]
      exact .group hb (hg.append hc)

theorem Holds.step (h : Holds ts n) (hs : n.step t = .ok m) : Holds (ts ++ [t]) m := by
  rcases step_eq_ok hs with ⟨rfl, rfl⟩ | ⟨ht | ⟨rfl, hg⟩, rfl⟩ | ⟨g, gs, v, rfl, hg, hv, rfl⟩
  · exact .group h .nil
  · exact h.append (.singleton ht)
  · obtain ⟨base, groups⟩ := n
    cases hg
    exact .base fun hm => absurd (List.mem_append_right base List.mem_cons_self) hm
  · cases h with
    | base hb => cases hg
    | group hb hc =>
        cases hg
        rw [List.append_assoc]
        exact hb.append (.of_group hc hv)

theorem holds_of_read (h : start.read ts = .ok m) : Holds ts m := by
  induction ts using List.reverseRecOn generalizing m with
  | nil =>
      cases h
      exact .base fun _ => .nil
  | append_singleton ts t ih =>
      obtain ⟨k, hk, hs⟩ := read_concat_eq_ok h
      exact (ih hk).step hs

theorem collapses_iff_read : Collapses ts us ↔ start.read ts = .ok ⟨us, []⟩ ∧ .closing ∉ us := by
  constructor
  · exact fun h => ⟨read_of_collapses h start, (flat_iff.mp h.flat).2⟩
  · rintro ⟨hread, hc⟩
    cases holds_of_read hread with
    | base h => exact h hc

theorem groupFails_iff_read : GroupFails ts ↔ ∃ e, start.read ts = .error e := by
  constructor
  · rintro ⟨before, g, after, inside, e, rfl, hg, he⟩
    rw [read_append]
    cases hbefore : start.read before with
    | error e' => exact ⟨e', rfl⟩
    | ok n =>
        refine ⟨e, ?_⟩
        change n.read (grouped g ++ after) = _
        rw [read_append, read_grouped_of_read (read_of_collapses hg), he]
        rfl
  · rintro ⟨e, h⟩
    obtain ⟨us, t, vs, n, rfl, hread, hs⟩ := read_eq_error h
    obtain ⟨g, gs, rfl, hgroups, he⟩ := step_eq_error hs
    obtain ⟨base, groups⟩ := n
    cases hgroups
    cases holds_of_read hread with
    | @group before g' _ _ _ _ hg => exact ⟨before, g', vs, g, e, by simp [grouped], hg, he⟩

end Nesting

theorem Collapses.unique (h : Collapses ts us) (h' : Collapses ts vs) : us = vs := by
  have hread := (Nesting.collapses_iff_read.mp h).1
  rw [(Nesting.collapses_iff_read.mp h').1] at hread
  cases hread
  rfl

/-- A sequence collapses unless a parenthesis has no partner or a group has no value. -/
theorem exists_collapses_iff : (∃ us, Collapses ts us) ↔ Balanced .opening .closing ts ∧ ¬ GroupFails ts := by
  rw [Nesting.groupFails_iff_read]
  constructor
  · rintro ⟨us, h⟩
    obtain ⟨hread, hc⟩ := Nesting.collapses_iff_read.mp h
    refine ⟨(Nesting.closed_iff_balanced hread).mp ⟨rfl, hc⟩, ?_⟩
    rintro ⟨e, he⟩
    rw [hread] at he
    cases he
  · rintro ⟨hbalanced, hfails⟩
    cases hread : Nesting.start.read ts with
    | error e => exact absurd ⟨e, hread⟩ hfails
    | ok m =>
        obtain ⟨base, groups⟩ := m
        obtain ⟨hg, hc⟩ := (Nesting.closed_iff_balanced hread).mpr hbalanced
        cases hg
        exact ⟨base, Nesting.collapses_iff_read.mpr ⟨hread, hc⟩⟩

end Calculator
