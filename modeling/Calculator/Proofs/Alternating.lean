import Calculator.Proofs.Chain
import Calculator.Proofs.Terms

namespace Calculator

variable {ts : List Token} {terms : List Term} {v : Float}

theorem Term.ofTokens_eq_ok : ofTokens ts = .ok terms ↔ ts.map ofToken = terms.map .ok := by
  induction ts generalizing terms with
  | nil => cases terms <;> simp [ofTokens]
  | cons t ts ih =>
      constructor
      · intro h
        obtain ⟨x, hx, h⟩ := Outcome.bind_eq_ok.mp h
        obtain ⟨xs, hxs, h⟩ := Outcome.bind_eq_ok.mp h
        cases h
        rw [List.map_cons, List.map_cons, hx, ih.mp hxs]
      · intro h
        obtain ⟨x, xs, rfl, hx, hxs⟩ := List.map_eq_cons_iff.mp h.symm
        rw [ofTokens, ← hx, ih.mpr hxs.symm]
        rfl

namespace Term

variable {t : Token} {x : Term} {i : Nat}

theorem getElem?_ofTokens (h : ofTokens ts = .ok terms) (i : Nat) : ts[i]?.map ofToken = terms[i]?.map .ok := by
  rw [← List.getElem?_map, ← List.getElem?_map, ofTokens_eq_ok.mp h]

theorem getElem?_of_token (h : ofTokens ts = .ok terms) (ht : ts[i]? = some t) :
    ∃ x, terms[i]? = some x ∧ ofToken t = .ok x := by
  have hmap := getElem?_ofTokens h i
  rw [ht] at hmap
  obtain ⟨x, hx, he⟩ := Option.map_eq_some_iff.mp hmap.symm
  exact ⟨x, hx, he.symm⟩

theorem getElem?_of_term (h : ofTokens ts = .ok terms) (hx : terms[i]? = some x) :
    ∃ t, ts[i]? = some t ∧ ofToken t = .ok x := by
  have hmap := getElem?_ofTokens h i
  rw [hx] at hmap
  exact Option.map_eq_some_iff.mp hmap

end Term

namespace Chain

theorem length_terms (c : Chain) : c.terms.length = 2 * c.tail.length + 1 := by
  obtain ⟨head, tail⟩ := c
  induction tail generalizing head with
  | nil => rfl
  | cons x tail ih =>
      rw [terms_cons, List.length_cons, List.length_cons, ih]
      rfl

theorem getElem?_operator (c : Chain) (i : Nat) :
    c.terms[2 * i + 1]? = c.tail[i]?.map fun x => .operator x.1 := by
  obtain ⟨head, tail⟩ := c
  induction tail generalizing head i with
  | nil => rfl
  | cons x tail ih =>
      cases i with
      | zero => rfl
      | succ i => exact ih i x.2

theorem getElem?_value (c : Chain) (i : Nat) : c.terms[2 * i + 2]? = c.tail[i]?.map fun x => .value x.2 := by
  obtain ⟨head, tail⟩ := c
  induction tail generalizing head i with
  | nil => rfl
  | cons x tail ih =>
      cases i with
      | zero => rfl
      | succ i => exact ih i x.2

/-- A sequence is a chain if a number comes first and each second term is an operator with a number after it. -/
theorem exists_terms {v : Float} {terms : List Term} (h : ∀ i, 2 * i < terms.length →
    ∃ op w, terms[2 * i]? = some (.operator op) ∧ terms[2 * i + 1]? = some (.value w)) :
    ∃ c : Chain, .value v :: terms = c.terms := by
  match terms with
  | [] => exact ⟨⟨v, []⟩, rfl⟩
  | [t] =>
      obtain ⟨op, w, -, hw⟩ := h 0 Nat.one_pos
      cases hw
  | t :: u :: rest =>
      obtain ⟨op, w, hop, hw⟩ := h 0 (Nat.succ_pos _)
      cases hop
      cases hw
      have hrest : ∃ c : Chain, .value w :: rest = c.terms :=
        exists_terms fun i hi => h (i + 1) (Nat.add_lt_add_right hi 2)
      obtain ⟨⟨head, tail⟩, hc⟩ := hrest
      cases hc
      exact ⟨⟨v, (op, head) :: tail⟩, rfl⟩

end Chain

end Calculator
