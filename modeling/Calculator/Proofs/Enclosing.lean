import Calculator.Proofs.Balance
import Calculator.Proofs.Seams

namespace Calculator

/-- The same error in a text that starts `n` bytes later. -/
def EvalError.shift (n : Nat) : EvalError → EvalError
  | invalidCharacter character position => invalidCharacter character (position + n)
  | e => e

theorem EvalError.shift_shift (m n : Nat) (e : EvalError) : (e.shift m).shift n = e.shift (m + n) := by
  cases e with
  | invalidCharacter c p => exact congrArg (invalidCharacter c) (Nat.add_assoc p m n)
  | _ => rfl

theorem EvalError.Sequential.shift {e : EvalError} (h : e.Sequential) (n : Nat) : e.shift n = e := by
  cases e with
  | invalidCharacter => cases h
  | _ => rfl

def enclosed : Nat → String → String
  | 0, s => s
  | d + 1, s => "(" ++ enclosed d s ++ ")"

def nested : Nat → List Token → List Token
  | 0, ts => ts
  | d + 1, ts => grouped (nested d ts)

namespace Scan

def parenthesis? : Char → Option Token
  | '(' => some .opening
  | ')' => some .closing
  | _ => none

theorem parenthesis?_of_ne {c : Char} (ho : c ≠ '(') (hc : c ≠ ')') : parenthesis? c = none := by
  unfold parenthesis?
  split
  · exact absurd rfl ho
  · exact absurd rfl hc
  · rfl

theorem parenthesis?_eq_opening (c : Char) : parenthesis? c = some .opening ↔ c = '(' := by
  unfold parenthesis?
  split
  · simp
  · simp
  · next h _ => simpa using h

theorem parenthesis?_eq_closing (c : Char) : parenthesis? c = some .closing ↔ c = ')' := by
  unfold parenthesis?
  split
  · simp
  · simp
  · next h => simpa using h

theorem filterMap_parenthesis?_of_not_mem {cs : List Char} (ho : '(' ∉ cs) (hc : ')' ∉ cs) :
    cs.filterMap parenthesis? = [] := by
  rw [List.filterMap_eq_nil_iff]
  intro c hm
  apply parenthesis?_of_ne
  · rintro rfl
    exact ho hm
  · rintro rfl
    exact hc hm

theorem filterMap_parenthesis?_display {t : Token} (h : Lexical t) :
    t.display.toList.filterMap parenthesis? = [t].filter Token.isParenthesis := by
  cases h with
  | @literal text _ hall =>
      apply filterMap_parenthesis?_of_not_mem
      · exact fun hm => absurd (hall _ hm) (by decide)
      · exact fun hm => absurd (hall _ hm) (by decide)
  | operator op => cases op <;> rfl
  | opening | closing => rfl

namespace Cut

variable {position : Nat} {cs : List Char} {xs : List Lexeme}

theorem filter_isParenthesis (h : Cut position cs xs) :
    (xs.map Lexeme.token).filter Token.isParenthesis = cs.filterMap parenthesis? := by
  induction h with
  | nil => rfl
  | @blank position c cs xs hb _ ih =>
      have hc : parenthesis? c = none := by
        apply parenthesis?_of_ne
        · rintro rfl
          exact absurd hb (by decide)
        · rintro rfl
          exact absurd hb (by decide)
      rw [ih, List.filterMap_cons_none hc]
  | @token position stop t run cs xs ht hrun _ _ _ ih =>
      rw [← hrun, List.filterMap_append, filterMap_parenthesis?_display ht, ← ih, ← List.filter_append]
      rfl

end Cut

end Scan

theorem tokenize_parenthesized (s : String) :
    tokenize ("(" ++ s ++ ")") = ((tokenize s).map grouped).mapError (·.shift 1) := by
  have hopening : tokenize "(" = .ok [.opening] := by decide +kernel
  have hclosing : tokenize ")" = .ok [.closing] := by decide +kernel
  cases h : tokenize s with
  | error e =>
      obtain ⟨before, c, after, hstray, rfl⟩ := stray_of_tokenize h
      exact tokenize_append_of_error (tokenize_append_error hopening h) ")"
  | ok ts =>
      have hopened : tokenize ("(" ++ s) = .ok (.opening :: ts) :=
        tokenize_append (.inl (by rintro d ⟨⟩; rfl)) hopening h
      exact tokenize_append (.inr (by rintro d ⟨⟩; rfl)) hopened hclosing

theorem tokenize_enclosed (d : Nat) (s : String) :
    tokenize (enclosed d s) = ((tokenize s).map (nested d)).mapError (·.shift d) := by
  induction d with
  | zero =>
      change tokenize s = _
      cases tokenize s with
      | error e => cases e <;> rfl
      | ok ts => rfl
  | succ d ih =>
      rw [enclosed, tokenize_parenthesized, ih]
      cases tokenize s with
      | error e => exact congrArg Except.error (e.shift_shift d 1)
      | ok ts => rfl

theorem balanced_tokens {s : String} {ts : List Token} (h : tokenize s = .ok ts) :
    Balanced .opening .closing ts ↔ Balanced '(' ')' s.toList := by
  rcases alphabet_or_stray s with ha | ⟨before, c, after, hs⟩
  · obtain ⟨-, hcut⟩ := Scan.cut_ofListAt 0 s.toList ha
    have hts := hcut.outcome 0
    rw [show (Scan.ofListAt 0 s.toList).outcome = .ok ts from h] at hts
    cases hts
    have hguard (t : Token) (ht : t.isParenthesis) (u : Token) :
        Option.guard Token.isParenthesis u = some t ↔ u = t := by
      rw [Option.guard_eq_some_iff]
      exact ⟨And.left, fun hu => ⟨hu, hu ▸ ht⟩⟩
    rw [← Balanced.filterMap_iff (hguard .opening rfl) (hguard .closing rfl), List.filterMap_eq_filter,
      hcut.filter_isParenthesis]
    exact Balanced.filterMap_iff Scan.parenthesis?_eq_opening Scan.parenthesis?_eq_closing
  · rw [tokenize_of_stray hs] at h
    cases h

namespace Nesting

theorem balanced_nested {ts : List Token} (h : Balanced .opening .closing ts) (d : Nat) :
    Balanced .opening .closing (nested d ts) := by
  induction d with
  | zero => exact h
  | succ d ih => exact ih.enclose (by decide)

theorem read_nested_finish {ts : List Token} (h : Balanced .opening .closing ts) (d : Nat) :
    start.read (nested d ts) >>= finish = start.read ts >>= finish := by
  induction d with
  | zero => rfl
  | succ d ih => exact (read_grouped_finish (balanced_nested h d)).trans ih

theorem shift_of_finish {ts : List Token} {e : EvalError} (h : start.read ts >>= finish = .error e) (n : Nat) :
    e.shift n = e := by
  rcases Outcome.bind_eq_error.mp h with h | ⟨m, -, h⟩
  · exact (sequential_of_read h).shift n
  · rw [finish] at h
    split at h
    · exact (sequential_of_reduce h).shift n
    · cases h
      rfl

end Nesting

/-- Parentheses around a text whose own parentheses all have partners change nothing. The value and every error stay
the same, but for the position of a character that belongs to no token. -/
theorem evaluate?_enclosed {s : String} (h : Balanced '(' ')' s.toList) (d : Nat) :
    evaluate? (enclosed d s) = (evaluate? s).mapError (·.shift d) := by
  rw [evaluate?_eq_read, evaluate?_eq_read, tokenize_enclosed]
  cases ht : tokenize s with
  | error e => rfl
  | ok ts =>
      have hread := Nesting.read_nested_finish ((balanced_tokens ht).mpr h) d
      change (Nesting.start.read (nested d ts) >>= Nesting.finish) =
        (Nesting.start.read ts >>= Nesting.finish).mapError _
      rw [hread]
      cases hfinish : Nesting.start.read ts >>= Nesting.finish with
      | error e => exact congrArg Except.error (Nesting.shift_of_finish hfinish d).symm
      | ok v => rfl

theorem evaluate?_twice_enclosed :
    evaluate? "((2+(3)-))" = .error (.expectedOperand 2) ∧ evaluate? "((1\u2003é))" = .error (.invalidCharacter 'é' 6) := by
  refine ⟨(evaluate?_enclosed (s := "2+(3)-") (by decide +kernel) 2).trans ?_,
    (evaluate?_enclosed (s := "1\u2003é") (by decide +kernel) 2).trans ?_⟩
  · decide +kernel
  · decide +kernel

end Calculator
