import Calculator.Proofs.Outcome
import Calculator.Proofs.Unmatched

namespace Calculator

def Readable (ts : List Token) : Prop := ∀ x, .operand x ∈ ts → ∃ v, x.read = .ok v

theorem Readable.left {ts us : List Token} (h : Readable (ts ++ us)) : Readable ts :=
  fun x hx => h x (List.mem_append_left _ hx)

theorem Readable.right {ts us : List Token} (h : Readable (ts ++ us)) : Readable us :=
  fun x hx => h x (List.mem_append_right _ hx)

theorem Readable.tail {t : Token} {ts : List Token} (h : Readable (t :: ts)) : Readable ts :=
  fun x hx => h x (List.mem_cons_of_mem _ hx)

theorem Readable.operator {ts us : List Token} {op : Operator} (h : Readable ts) (h' : Readable us) :
    Readable (ts ++ .operator op :: us) := by
  intro x hx
  rcases List.mem_append.mp hx with hx | hx
  · exact h x hx
  · rcases List.mem_cons.mp hx with hx | hx
    · cases hx
    · exact h' x hx

theorem Readable.group {ts : List Token} (h : Readable ts) : Readable (.opening :: (ts ++ [.closing])) := by
  intro x hx
  rcases List.mem_cons.mp hx with hx | hx
  · cases hx
  · rcases List.mem_append.mp hx with hx | hx
    · exact h x hx
    · cases List.mem_singleton.mp hx

namespace Term

theorem ofTokens_append (ts us : List Token) :
    ofTokens (ts ++ us) = ofTokens ts >>= fun xs => ofTokens us >>= fun ys => pure (xs ++ ys) := by
  induction ts with
  | nil =>
      change ofTokens us = ofTokens us >>= fun ys => pure ys
      cases ofTokens us <;> rfl
  | cons t ts ih =>
      rw [List.cons_append, ofTokens, ofTokens, ih]
      cases ofToken t with
      | error e => rfl
      | ok x =>
          cases ofTokens ts with
          | error e => rfl
          | ok xs => cases ofTokens us <;> rfl

theorem ofTokens_eq_cons {ts : List Token} {x : Term} {xs : List Term} (h : ofTokens ts = .ok (x :: xs)) :
    ∃ t us, ts = t :: us ∧ ofToken t = .ok x ∧ ofTokens us = .ok xs := by
  cases ts with
  | nil => cases h
  | cons t us =>
      obtain ⟨y, hy, h⟩ := Outcome.bind_eq_ok.mp h
      obtain ⟨ys, hys, h⟩ := Outcome.bind_eq_ok.mp h
      cases h
      exact ⟨t, us, rfl, hy, hys⟩

theorem ofTokens_eq_nil {ts : List Token} (h : ofTokens ts = .ok []) : ts = [] := by
  cases ts with
  | nil => rfl
  | cons t us =>
      obtain ⟨y, -, h⟩ := Outcome.bind_eq_ok.mp h
      obtain ⟨ys, -, h⟩ := Outcome.bind_eq_ok.mp h
      cases h

theorem read_of_ofToken {x : Operand} {y : Term} (h : ofToken (.operand x) = .ok y) :
    ∃ v, x.read = .ok v ∧ y = value v := by
  cases hv : x.read with
  | error e =>
      rw [ofToken, hv] at h
      cases h
  | ok v =>
      rw [ofToken, hv] at h
      cases h
      exact ⟨v, rfl, rfl⟩

theorem eq_operator_of_ofToken {t : Token} {op : Operator} (h : ofToken t = .ok (operator op)) :
    t = .operator op := by
  cases t with
  | operand x =>
      obtain ⟨v, -, h⟩ := read_of_ofToken h
      cases h
  | operator op' =>
      cases h
      rfl
  | opening | closing | blank => cases h

theorem flat_of_ofTokens {ts : List Token} {xs : List Term} (h : ofTokens ts = .ok xs) (hx : .foreign ∉ xs) :
    Flat ts := by
  induction ts generalizing xs with
  | nil => exact List.forall_mem_nil _
  | cons t ts ih =>
      obtain ⟨y, hy, h⟩ := Outcome.bind_eq_ok.mp h
      obtain ⟨ys, hys, h⟩ := Outcome.bind_eq_ok.mp h
      cases h
      refine List.forall_mem_cons.mpr ⟨?_, ih hys fun hm => hx (List.mem_cons_of_mem _ hm)⟩
      cases t with
      | operand | operator | blank => rfl
      | opening | closing =>
          cases hy
          exact absurd List.mem_cons_self hx

end Term

end Calculator
