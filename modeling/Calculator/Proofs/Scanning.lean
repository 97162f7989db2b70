import Calculator.Lexeme
import Mathlib.Data.List.Chain

namespace Calculator

inductive Lexical : Token → Prop
  | literal {text : String} : text.toList ≠ [] → (∀ c ∈ text.toList, Scan.isNumeric c) → Lexical (.literal text)
  | operator (op : Operator) : Lexical (.operator op)
  | opening : Lexical .opening
  | closing : Lexical .closing

def Separate (ts : List Token) : Prop := ts.IsChain fun t u => ∀ x y, t = .operand x → u ≠ .operand y

/-- The texts of the tokens in order, with any blanks before, between and after. -/
inductive Spaced : List Token → List Char → Prop
  | nil : Spaced [] []
  | blank {c : Char} {ts : List Token} {cs : List Char} : Text.isBlank c → Spaced ts cs → Spaced ts (c :: cs)
  | token (t : Token) {ts : List Token} {cs : List Char} : Spaced ts cs → Spaced (t :: ts) (t.display.toList ++ cs)

theorem Separate.tail {t : Token} {ts : List Token} (h : Separate (t :: ts)) : Separate ts := List.IsChain.tail h

theorem Separate.operator {ts us : List Token} (h : Separate ts) (h' : Separate us) (op : Operator) :
    Separate (ts ++ .operator op :: us) := by
  refine List.isChain_append.mpr ⟨h, List.isChain_cons.mpr ⟨?_, h'⟩, ?_⟩
  · intro u _ x y hx
    cases hx
  · intro t _ u hu x y _ hy
    cases hu
    cases hy

theorem Separate.group {ts : List Token} (h : Separate ts) : Separate (.opening :: (ts ++ [.closing])) := by
  refine List.isChain_cons.mpr ⟨?_, List.isChain_append.mpr ⟨h, List.isChain_singleton _, ?_⟩⟩
  · intro u _ x y hx
    cases hx
  · intro t _ u hu x y _ hy
    cases hu
    cases hy

namespace Scan

theorem isNumeric_of_isBlank {c : Char} (h : Text.isBlank c) : isNumeric c = false := by
  rw [isNumeric, Bool.or_eq_false_iff]
  constructor
  · rw [Bool.eq_false_iff]
    intro hd
    have hle := Char.isDigit_iff_toNat.mp hd
    simp [Text.isBlank] at h
    have h0 : '0'.toNat = 48 := rfl
    have h9 : '9'.toNat = 57 := rfl
    omega
  · rw [beq_eq_false_iff_ne]
    rintro rfl
    revert h
    decide

theorem symbol?_of_isBlank {c : Char} (h : Text.isBlank c) : symbol? c = none := by
  unfold symbol?
  split
  · revert h
    decide
  · revert h
    decide
  · cases hop : Operator.ofSymbol? c with
    | none => rfl
    | some op =>
        cases Operator.symbol_of_ofSymbol? hop
        cases op <;> revert h <;> decide

theorem ofListAt_token {t : Token} (ht : Lexical t) {cs : List Char}
    (hcs : ∀ x, t = .operand x → ∀ c ∈ cs.head?, isNumeric c = false) (position : Nat) :
    ∃ next, ofListAt position (t.display.toList ++ cs) = (ofListAt next cs).cons ⟨t, position, next⟩ := by
  cases ht with
  | @literal text hne hall =>
      cases htext : text.toList with
      | nil => exact absurd htext hne
      | cons c run =>
          rw [htext] at hall
          obtain ⟨hc, hrun⟩ := List.forall_mem_cons.mp hall
          have hstop := hcs _ rfl
          have htake : (run ++ cs).takeWhile isNumeric = run := by
            rw [List.takeWhile_append_of_pos hrun]
            cases cs with
            | nil => simp
            | cons d cs => simp [hstop d rfl]
          have hdrop : (run ++ cs).dropWhile isNumeric = cs := by
            rw [List.dropWhile_append_of_pos hrun]
            cases cs with
            | nil => rfl
            | cons d cs => simp [hstop d rfl]
          change ∃ next, ofListAt position (text.toList ++ cs) = _
          rw [htext, List.cons_append, ofListAt_numeric position hc, htake, hdrop, ← htext]
          dsimp only
          rw [String.ofList_toList]
          exact ⟨_, rfl⟩
  | operator op =>
      have hsymbol : symbol? op.symbol = some (.operator op) := by cases op <;> rfl
      have hnumeric : isNumeric op.symbol = false := by cases op <;> rfl
      have htext : (Token.operator op).display.toList = [op.symbol] := by cases op <;> rfl
      rw [htext]
      exact ⟨_, ofListAt_symbol position hnumeric hsymbol cs⟩
  | opening => exact ⟨_, ofListAt_symbol position rfl rfl cs⟩
  | closing => exact ⟨_, ofListAt_symbol position rfl rfl cs⟩

theorem outcome_cons (x : Lexeme) (s : Scan) : (s.cons x).outcome = s.outcome.map (x.token :: ·) := by
  obtain ⟨lexemes, stray⟩ := s
  cases stray <;> rfl

theorem head_of_spaced {x : Operand} {ts : List Token} {cs : List Char} (h : Spaced ts cs)
    (hl : ∀ t ∈ ts, Lexical t) (hs : Separate (.operand x :: ts)) : ∀ c ∈ cs.head?, isNumeric c = false := by
  intro c hc
  cases h with
  | nil => cases hc
  | blank hb _ =>
      cases hc
      exact isNumeric_of_isBlank hb
  | token t h =>
      cases hl t List.mem_cons_self with
      | literal => exact absurd rfl ((List.isChain_cons.mp hs).1 _ rfl _ _ rfl)
      | operator op =>
          cases op <;> cases hc <;> rfl
      | opening | closing =>
          cases hc
          rfl

theorem outcome_of_spaced {ts : List Token} {cs : List Char} (h : Spaced ts cs) (hl : ∀ t ∈ ts, Lexical t)
    (hs : Separate ts) (position : Nat) : (ofListAt position cs).outcome = .ok ts := by
  induction h generalizing position with
  | nil =>
      rw [ofListAt_nil]
      rfl
  | blank hb _ ih =>
      rw [ofListAt_blank position (isNumeric_of_isBlank hb) (symbol?_of_isBlank hb) hb]
      exact ih hl hs _
  | token t h ih =>
      obtain ⟨ht, hl⟩ := List.forall_mem_cons.mp hl
      have hhead (x : Operand) (hx : t = .operand x) := head_of_spaced h hl (hx ▸ hs)
      obtain ⟨next, hnext⟩ := ofListAt_token ht hhead position
      rw [hnext, outcome_cons, ih hl hs.tail]
      rfl

end Scan

theorem tokenize_of_spaced {ts : List Token} {s : String} (h : Spaced ts s.toList) (hl : ∀ t ∈ ts, Lexical t)
    (hs : Separate ts) : tokenize s = .ok ts := Scan.outcome_of_spaced h hl hs 0

theorem tokenize_display {t : Token} (h : Lexical t) : tokenize t.display = .ok [t] := by
  have hspaced : Spaced [t] (t.display.toList ++ []) := .token t .nil
  rw [List.append_nil] at hspaced
  exact tokenize_of_spaced hspaced (List.forall_mem_singleton.mpr h) (List.isChain_singleton t)

end Calculator
