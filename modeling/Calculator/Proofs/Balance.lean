import Calculator.Proofs.Splice
import Mathlib.Data.List.Infix

namespace Calculator

/-- As many of `closer` as of `opener`, and up to no point more of them. -/
structure Balanced {α : Type} [DecidableEq α] (opener closer : α) (xs : List α) : Prop where
  total : xs.count opener = xs.count closer
  ahead : ∀ ys, ys <+: xs → ys.count closer ≤ ys.count opener

namespace Balanced

variable {α β : Type} [DecidableEq α] [DecidableEq β] {opener closer : α} {xs : List α}

instance (opener closer : α) (xs : List α) : Decidable (Balanced opener closer xs) :=
  decidable_of_iff (xs.count opener = xs.count closer ∧ ∀ ys ∈ xs.inits, ys.count closer ≤ ys.count opener)
    ⟨fun h => ⟨h.1, fun ys hys => h.2 ys ((List.mem_inits ys xs).mpr hys)⟩,
      fun h => ⟨h.total, fun ys hys => h.ahead ys ((List.mem_inits ys xs).mp hys)⟩⟩

theorem of_not_mem (ho : opener ∉ xs) (hc : closer ∉ xs) : Balanced opener closer xs where
  total := by rw [List.count_eq_zero_of_not_mem ho, List.count_eq_zero_of_not_mem hc]
  ahead ys hys := by
    rw [List.count_eq_zero_of_not_mem fun hm => hc (hys.subset hm)]
    apply Nat.zero_le

theorem enclose (h : Balanced opener closer xs) (hne : opener ≠ closer) :
    Balanced opener closer (opener :: (xs ++ [closer])) where
  total := by
    have htotal := h.total
    simp [hne, hne.symm, htotal]
  ahead ys hys := by
    rcases List.prefix_cons_iff.mp hys with rfl | ⟨zs, rfl, hzs⟩
    · simp
    · rcases List.prefix_concat_iff.mp hzs with rfl | hzs
      · have htotal := h.total
        simp [hne, hne.symm, htotal]
      · have hahead := h.ahead zs hzs
        simp only [List.count_cons_self, List.count_cons_of_ne hne]
        omega

theorem count_filterMap {f : α → Option β} {a : α} {b : β} (h : ∀ x, f x = some b ↔ x = a) (xs : List α) :
    (xs.filterMap f).count b = xs.count a := by
  rw [List.count_filterMap, List.count]
  apply List.countP_congr
  intro x _
  simp [h]

theorem filterMap_iff {f : α → Option β} {opener' closer' : β} (ho : ∀ x, f x = some opener' ↔ x = opener)
    (hc : ∀ x, f x = some closer' ↔ x = closer) :
    Balanced opener' closer' (xs.filterMap f) ↔ Balanced opener closer xs := by
  constructor
  · intro h
    refine ⟨?_, fun ys hys => ?_⟩
    · have htotal := h.total
      rwa [count_filterMap ho, count_filterMap hc] at htotal
    · have hahead := h.ahead (ys.filterMap f) (hys.filterMap f)
      rwa [count_filterMap ho, count_filterMap hc] at hahead
  · intro h
    refine ⟨?_, fun ys hys => ?_⟩
    · rw [count_filterMap ho, count_filterMap hc]
      exact h.total
    · obtain ⟨zs, hzs, rfl⟩ := List.prefix_filterMap_iff.mp hys
      rw [count_filterMap ho, count_filterMap hc]
      exact h.ahead zs hzs

end Balanced

namespace Nesting

open Outcome

variable {n m : Nesting} {ts us : List Token} {e : EvalError}

theorem read_concat_eq_ok {t : Token} (h : n.read (ts ++ [t]) = .ok m) :
    ∃ k, n.read ts = .ok k ∧ k.step t = .ok m := by
  rw [read_append] at h
  obtain ⟨k, hk, h⟩ := bind_eq_ok.mp h
  obtain ⟨m', hm, h⟩ := bind_eq_ok.mp h
  cases h
  exact ⟨k, hk, hm⟩

theorem length_groups_push (n : Nesting) (t : Token) : (n.push t).groups.length = n.groups.length := by
  obtain ⟨base, _ | ⟨g, gs⟩⟩ := n <;> rfl

theorem count_base_push (n : Nesting) {t : Token} (h : t ≠ .closing) :
    (n.push t).base.count .closing = n.base.count .closing := by
  obtain ⟨base, _ | ⟨g, gs⟩⟩ := n
  · simp [push, append, h]
  · rfl

theorem count_of_step {t : Token} (h : n.step t = .ok m) :
    m.groups.length + [t].count .closing + n.base.count .closing =
      n.groups.length + [t].count .opening + m.base.count .closing := by
  rcases step_eq_ok h with ⟨rfl, rfl⟩ | ⟨ht | ⟨rfl, hg⟩, rfl⟩ | ⟨g, gs, v, rfl, hg, -, rfl⟩
  · simp
  · have hopening : t ≠ .opening := by
      rintro rfl
      cases ht
    have hclosing : t ≠ .closing := by
      rintro rfl
      cases ht
    rw [length_groups_push, count_base_push n hclosing]
    simp [hopening, hclosing]
  · obtain ⟨base, groups⟩ := n
    cases hg
    simp [push, append]
    omega
  · rw [length_groups_push, count_base_push _ (by simp), hg]
    simp

theorem count_of_read (h : n.read ts = .ok m) :
    m.groups.length + ts.count .closing + n.base.count .closing =
      n.groups.length + ts.count .opening + m.base.count .closing := by
  induction ts generalizing n with
  | nil =>
      cases h
      rfl
  | cons t ts ih =>
      obtain ⟨k, hs, h⟩ := bind_eq_ok.mp h
      have hstep := count_of_step hs
      have hread := ih h
      rw [← List.singleton_append, List.count_append, List.count_append]
      omega

/-- As long as no more parentheses close than have opened, none of them is left over. -/
theorem closing_not_mem_of_ahead (h : start.read ts = .ok m)
    (hahead : ∀ us, us <+: ts → us.count .closing ≤ us.count .opening) : .closing ∉ m.base := by
  induction ts using List.reverseRecOn generalizing m with
  | nil =>
      cases h
      exact List.not_mem_nil
  | append_singleton ts t ih =>
      obtain ⟨k, hk, hs⟩ := read_concat_eq_ok h
      have hbase : k.base.count .closing = 0 :=
        List.count_eq_zero.mpr (ih hk fun us hus => hahead us (hus.trans (List.prefix_append ts [t])))
      rw [← List.count_eq_zero, ← hbase]
      rcases step_eq_ok hs with ⟨-, rfl⟩ | ⟨ht | ⟨rfl, hg⟩, rfl⟩ | ⟨g, gs, v, -, -, -, rfl⟩
      · rfl
      · apply count_base_push
        rintro rfl
        cases ht
      · -- With no group open, the parenthesis would be one too many.
        have hcount := count_of_read hk
        have hle := hahead _ (List.prefix_refl _)
        rw [hg, hbase] at hcount
        simp [start] at hcount hle
        omega
      · exact count_base_push ⟨k.base, gs⟩ (by simp)

theorem closed_iff_balanced (h : start.read ts = .ok m) :
    m.groups = [] ∧ .closing ∉ m.base ↔ Balanced .opening .closing ts := by
  constructor
  · rintro ⟨hg, hc⟩
    refine ⟨?_, fun us hus => ?_⟩
    · have hcount := count_of_read h
      rw [hg, List.count_eq_zero_of_not_mem hc] at hcount
      simpa [start] using hcount.symm
    · obtain ⟨vs, rfl⟩ := hus
      rw [read_append] at h
      obtain ⟨k, hk, h⟩ := bind_eq_ok.mp h
      have hcount := count_of_read hk
      rw [List.count_eq_zero_of_not_mem fun hm => hc (base_subset_of_read h hm)] at hcount
      simp [start] at hcount
      omega
  · intro hb
    have hc := closing_not_mem_of_ahead h hb.ahead
    have hcount := count_of_read h
    rw [List.count_eq_zero_of_not_mem hc, hb.total] at hcount
    refine ⟨?_, hc⟩
    simpa [start] using hcount

theorem within_read_error (n : Nesting) (h : m.read ts = .error e)
    (hc : ∀ us k, us <+: ts → m.read us = .ok k → .closing ∉ k.base) : (n.within m).read ts = .error e := by
  obtain ⟨us, t, vs, k, rfl, hk, hs⟩ := read_eq_error h
  obtain ⟨g, gs, rfl, hg, hv⟩ := step_eq_error hs
  rw [read_append, within_read n hk (hc us k (List.prefix_append us _) hk)]
  change (n.within k).step .closing >>= _ = _
  obtain ⟨base, groups⟩ := k
  cases hg
  change (reduce g).outcome.map _ >>= _ = _
  rw [hv]
  rfl

/-- The content of a group is reduced as the whole sequence would be. -/
theorem read_grouped_finish (h : Balanced .opening .closing ts) :
    start.read (grouped ts) >>= finish = start.read ts >>= finish := by
  have hwithin : within ⟨[], [[]]⟩ start = ⟨[], [[]]⟩ := within_start _
  have hgrouped : start.read (grouped ts) = (within ⟨[], [[]]⟩ start).read ts >>= fun m => m.read [.closing] := by
    rw [hwithin, ← read_append]
    rfl
  rw [hgrouped]
  cases hread : start.read ts with
  | error e =>
      have hc (us : List Token) (k : Nesting) (hus : us <+: ts) (hk : start.read us = .ok k) : .closing ∉ k.base :=
        closing_not_mem_of_ahead hk fun vs hvs => h.ahead vs (hvs.trans hus)
      rw [within_read_error _ hread hc]
      rfl
  | ok m =>
      obtain ⟨hg, hc⟩ := (closed_iff_balanced hread).mpr h
      obtain ⟨base, groups⟩ := m
      cases hg
      rw [within_read _ hread hc]
      change (((reduce base).outcome.map _ >>= pure) >>= finish) = finish ⟨base, []⟩
      rw [finish, if_pos ⟨rfl, hc⟩]
      cases (reduce base).outcome with
      | error e => rfl
      | ok v => exact reduce_operand (x := .value v) rfl

end Nesting

end Calculator
