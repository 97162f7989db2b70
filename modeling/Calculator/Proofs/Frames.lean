import Calculator.Proofs.Nesting

namespace Calculator

/-- The frames of the groups that are open, with the innermost one on top, and whether a closing parenthesis
has come without a partner. -/
structure Frames where
  outer : List (List Token)
  top : List Token
  imbalanced : Bool
deriving DecidableEq

namespace Frames

open Outcome

def start : Frames := ⟨[], [], false⟩

def step (f : Frames) : Token → Except EvalError Frames
  | .opening => .ok ⟨f.top :: f.outer, [], f.imbalanced⟩
  | .closing =>
      match f.outer with
      | [] => .ok { f with imbalanced := true }
      | frame :: outer => (reduce f.top).outcome.map fun v => ⟨outer, frame ++ [.value v], f.imbalanced⟩
  | t => .ok { f with top := f.top ++ [t] }

def run (f : Frames) (ts : List Token) : Except EvalError Frames := ts.foldlM step f

def finish (f : Frames) : Except EvalError Float :=
  if f.imbalanced ∨ f.outer ≠ [] then .error .unbalancedParentheses else (reduce f.top).outcome

def ofNesting : Nesting → Frames
  | ⟨base, []⟩ => ⟨[], base.filter (· ≠ .closing), .closing ∈ base⟩
  | ⟨base, g :: gs⟩ => ⟨gs ++ [base.filter (· ≠ .closing)], g, .closing ∈ base⟩

theorem step_ofNesting (n : Nesting) (t : Token) : (ofNesting n).step t = (n.step t).map ofNesting := by
  obtain ⟨base, groups⟩ := n
  cases t with
  | opening => cases groups <;> rfl
  | operand | operator | blank =>
      cases groups <;> simp [step, ofNesting, Nesting.step, Nesting.push, Nesting.append, Except.map]
  | closing =>
      cases groups with
      | nil => simp [step, ofNesting, Nesting.step, Nesting.push, Nesting.append, Except.map]
      | cons g gs =>
          cases hv : (reduce g).outcome with
          | error e => cases gs <;> simp [step, ofNesting, Nesting.step, hv, Except.map]
          | ok v => cases gs <;> simp [step, ofNesting, Nesting.step, Nesting.push, Nesting.append, hv, Except.map]

theorem run_ofNesting (n : Nesting) (ts : List Token) : (ofNesting n).run ts = (n.read ts).map ofNesting := by
  induction ts generalizing n with
  | nil => rfl
  | cons t ts ih =>
      rw [run, List.foldlM_cons, step_ofNesting, Nesting.read_cons]
      cases n.step t with
      | error e => rfl
      | ok m => exact ih m

theorem finish_ofNesting (n : Nesting) : (ofNesting n).finish = n.finish := by
  obtain ⟨base, _ | ⟨g, gs⟩⟩ := n
  · by_cases h : .closing ∈ base
    · simp [ofNesting, finish, Nesting.finish, h]
    · have hkept : base.filter (· ≠ .closing) = base :=
        List.filter_eq_self.mpr fun t ht => decide_eq_true fun he : t = .closing => h (he ▸ ht)
      rw [ofNesting, hkept, finish, if_neg (by simp [h]), Nesting.finish, if_pos ⟨rfl, h⟩]
  · simp [ofNesting, finish, Nesting.finish]

theorem run_append (f : Frames) (ts us : List Token) :
    f.run (ts ++ us) = f.run ts >>= fun g => g.run us := List.foldlM_append

end Frames

theorem invalidCharacter_of_tokenize {s : String} {e : EvalError} (h : tokenize s = .error e) :
    ∃ c p, e = .invalidCharacter c p := by
  unfold tokenize Scan.outcome at h
  split at h
  · next c p _ =>
      cases h
      exact ⟨c, p, rfl⟩
  · cases h

theorem evaluate?_eq_bind (s : String) :
    evaluate? s = tokenize s >>= fun ts => Frames.start.run ts >>= Frames.finish := by
  rw [evaluate?_eq_read]
  congr 1
  funext ts
  change _ = (Frames.ofNesting .start).run ts >>= _
  rw [Frames.run_ofNesting]
  cases Nesting.start.read ts with
  | error e => rfl
  | ok n => exact (Frames.finish_ofNesting n).symm

/-- The outcome of an evaluation is that of one pass. A character that belongs to no token comes first, then
the first group that closes without a value, whatever follows it, then a parenthesis without a partner. -/
theorem evaluate?_by_frames (s : String) :
    (evaluate? s = tokenize s >>= fun ts => Frames.start.run ts >>= Frames.finish) ∧
      (∀ e, tokenize s = .error e → evaluate? s = .error e ∧ ∃ c p, e = .invalidCharacter c p) ∧
      (∀ ts us e, tokenize s = .ok (ts ++ us) → Frames.start.run ts = .error e → evaluate? s = .error e) ∧
      ∀ ts f, tokenize s = .ok ts → Frames.start.run ts = .ok f → f.imbalanced = true ∨ f.outer ≠ [] →
        evaluate? s = .error .unbalancedParentheses := by
  have h := evaluate?_eq_bind s
  refine ⟨h, ?_, ?_, ?_⟩
  · intro e he
    rw [h, he]
    exact ⟨rfl, invalidCharacter_of_tokenize he⟩
  · intro ts us e ht he
    rw [h, ht]
    change (Frames.start.run (ts ++ us) >>= _) = _
    rw [Frames.run_append, he]
    rfl
  · intro ts f ht hf hi
    rw [h, ht]
    change (Frames.start.run ts >>= _) = _
    rw [hf]
    exact if_pos hi

theorem evaluate?_group_wins : evaluate? "1)+(2/0)*(1.2.3)" = .error .divisionByZero :=
  (evaluate?_by_frames "1)+(2/0)*(1.2.3)").2.2.1
    [.literal "1", .closing, .operator .add, .opening, .literal "2", .operator .divide, .literal "0", .closing]
    [.operator .multiply, .opening, .literal "1.2.3", .closing] .divisionByZero (by decide +kernel) (by decide +kernel)

end Calculator
