import Calculator.Proofs.Dialogue
import Calculator.Proofs.Enclosing

namespace Calculator

open Scan (Apart)

/-- The same error in a text with `n` more bytes from byte `start` on. -/
def EvalError.shiftFrom (start n : Nat) : EvalError → EvalError
  | invalidCharacter character position =>
      invalidCharacter character (if start ≤ position then position + n else position)
  | e => e

theorem EvalError.userMessage_shiftFrom (start n : Nat) (e : EvalError) :
    (e.shiftFrom start n).userMessage = e.userMessage := by
  cases e <;> rfl

theorem EvalError.shiftFrom_zero (n : Nat) (e : EvalError) : e.shiftFrom 0 n = e.shift n := by
  cases e with
  | invalidCharacter c p => exact congrArg (invalidCharacter c) (if_pos (Nat.zero_le p))
  | _ => rfl

variable {s t a b w : String} {x : List Token} {f : EvalError → EvalError}

theorem tokenize_blanks (hw : ∀ c ∈ w.toList, Text.isBlank c) : tokenize w = .ok [] := by
  have hspaced {cs : List Char} (hcs : ∀ c ∈ cs, Text.isBlank c) : Spaced [] cs := by
    induction cs with
    | nil => exact .nil
    | cons c cs ih =>
        obtain ⟨hc, hcs⟩ := List.forall_mem_cons.mp hcs
        exact .blank hc (ih hcs)
  exact tokenize_of_spaced (hspaced hw) (List.forall_mem_nil _) List.IsChain.nil

theorem apart_blanks (a : String) (hw : ∀ c ∈ w.toList, Text.isBlank c) : Apart a.toList w.toList :=
  .inr fun d hd => Scan.isNumeric_of_isBlank (hw d (List.mem_of_mem_head? hd))

theorem Scan.Apart.blanks (h : Apart a.toList b.toList) (hw : ∀ c ∈ w.toList, Text.isBlank c) :
    Apart (a ++ w).toList b.toList := by
  refine h.imp_left fun hlast d hd => ?_
  rw [String.toList_append, List.getLast?_append, Option.mem_def, Option.or_eq_some_iff] at hd
  rcases hd with hd | ⟨-, hd⟩
  · exact Scan.isNumeric_of_isBlank (hw d (List.mem_of_getLast? hd))
  · exact hlast d hd

theorem tokenize_append_blanks (s : String) (hw : ∀ c ∈ w.toList, Text.isBlank c) : tokenize (s ++ w) = tokenize s := by
  cases hs : tokenize s with
  | error e => exact tokenize_append_of_error hs w
  | ok x => rw [tokenize_append (apart_blanks s hw) hs (tokenize_blanks hw), List.append_nil]

theorem tokenize_with_blanks (h : Apart a.toList b.toList) (hw : ∀ c ∈ w.toList, Text.isBlank c) :
    tokenize (a ++ w ++ b) = (tokenize (a ++ b)).mapError (·.shiftFrom a.utf8ByteSize w.utf8ByteSize) := by
  have haw := tokenize_append_blanks a hw
  cases ha : tokenize a with
  | error e =>
      rw [ha] at haw
      obtain ⟨before, c, after, ⟨rfl, -, -⟩, rfl⟩ := stray_of_tokenize ha
      have hlt : before.utf8ByteSize < (before ++ String.singleton c ++ after).utf8ByteSize := by
        have hpos := c.utf8Size_pos
        simp only [String.utf8ByteSize_append, String.utf8ByteSize_singleton]
        omega
      rw [tokenize_append_of_error haw, tokenize_append_of_error ha, Except.mapError, EvalError.shiftFrom,
        if_neg (Nat.not_le_of_gt hlt)]
  | ok x =>
      rw [ha] at haw
      cases hb : tokenize b with
      | error e =>
          obtain ⟨before, c, after, -, rfl⟩ := stray_of_tokenize hb
          rw [tokenize_append_error haw hb, tokenize_append_error ha hb, Except.mapError, EvalError.shiftFrom,
            if_pos (Nat.le_add_left _ _), String.utf8ByteSize_append, Nat.add_assoc]
      | ok y =>
          rw [tokenize_append (h.blanks hw) haw hb, tokenize_append h ha hb]
          rfl

theorem evaluate?_of_tokenize {start n : Nat} (h : tokenize s = (tokenize t).mapError (·.shiftFrom start n)) :
    evaluate? s = (evaluate? t).mapError (·.shiftFrom start n) := by
  rw [evaluate?_eq_read, evaluate?_eq_read, h]
  cases tokenize t with
  | error e => rfl
  | ok ts =>
      change (Nesting.start.read ts >>= Nesting.finish) = (Nesting.start.read ts >>= Nesting.finish).mapError _
      cases hfinish : Nesting.start.read ts >>= Nesting.finish with
      | ok v => rfl
      | error e =>
          cases e with
          | invalidCharacter c p =>
              have hshift := Nesting.shift_of_finish hfinish 1
              rw [EvalError.shift, EvalError.invalidCharacter.injEq] at hshift
              omega
          | _ => rfl

theorem evaluate_of_mapError (h : evaluate? s = (evaluate? t).mapError f) (hf : ∀ e, (f e).userMessage = e.userMessage) :
    evaluate s = evaluate t := by
  rw [evaluate, evaluate, h]
  cases evaluate? t with
  | error e => exact hf e
  | ok v => rfl

theorem evaluate?_with_blanks (h : Apart a.toList b.toList) (hw : ∀ c ∈ w.toList, Text.isBlank c) :
    evaluate? (a ++ w ++ b) = (evaluate? (a ++ b)).mapError (·.shiftFrom a.utf8ByteSize w.utf8ByteSize) :=
  evaluate?_of_tokenize (tokenize_with_blanks h hw)

def leadingBlanks (s : String) : String := String.ofList (s.toList.takeWhile Text.isBlank)

theorem exists_trailing_blanks (s : String) :
    ∃ w, s = leadingBlanks s ++ (Text.trim s ++ w) ∧ ∀ c ∈ w.toList, Text.isBlank c := by
  have hlist : s.toList = s.toList.takeWhile Text.isBlank ++
      ((s.toList.dropWhile Text.isBlank).rdropWhile Text.isBlank ++
        (s.toList.dropWhile Text.isBlank).rtakeWhile Text.isBlank) := by
    rw [List.rdropWhile_append_rtakeWhile, List.takeWhile_append_dropWhile]
  refine ⟨String.ofList ((s.toList.dropWhile Text.isBlank).rtakeWhile Text.isBlank), ?_, fun c hc => ?_⟩
  · rw [← String.toList_inj, String.toList_append, String.toList_append, leadingBlanks, Text.trim]
    simp only [String.toList_ofList]
    exact hlist
  · rw [String.toList_ofList] at hc
    exact List.mem_rtakeWhile_imp hc

theorem tokenize_trim (s : String) :
    tokenize s = (tokenize (Text.trim s)).mapError (·.shiftFrom 0 (leadingBlanks s).utf8ByteSize) := by
  obtain ⟨w, hs, hw⟩ := exists_trailing_blanks s
  have hl : ∀ c ∈ (leadingBlanks s).toList, Text.isBlank c := by
    intro c hc
    rw [leadingBlanks, String.toList_ofList] at hc
    exact List.mem_takeWhile_imp hc
  have h := tokenize_with_blanks (a := "") (b := Text.trim s ++ w) (.inl nofun) hl
  rwa [String.empty_append, String.empty_append, ← hs, tokenize_append_blanks _ hw, String.utf8ByteSize_empty] at h

theorem evaluate?_trim (s : String) :
    evaluate? s = (evaluate? (Text.trim s)).mapError (·.shift (leadingBlanks s).utf8ByteSize) := by
  have h := evaluate?_of_tokenize (tokenize_trim s)
  simp only [EvalError.shiftFrom_zero] at h
  exact h

theorem evaluate_trim (s : String) : evaluate (Text.trim s) = evaluate s :=
  (evaluate_of_mapError (evaluate?_trim s) fun e => by cases e <;> rfl).symm

namespace Console

theorem answer_eq (text : String) : answer text = evaluate text ++ "\n" := by rw [answer, evaluate_trim]

theorem turn_answers {line : List UInt8} {text : String} (h : decode? line = some text) (repeats : Bool) :
    (turn repeats line).1 = if repeats ∧ Text.trim text = "" then "" else evaluate text ++ "\n" := by
  cases repeats with
  | false =>
      rw [turn, h]
      exact answer_eq text
  | true => rw [turn_repeating h, reply, evaluate_trim]; simp

end Console

/-- Blanks may be put anywhere but between the digits and points of a literal. They change neither the answer nor the
outcome, but for the position of a foreign character behind them. So the blanks at the ends of an argument or of a line
might as well stay: what is printed is the answer to the whole text. Only in a program that repeats does a line of
nothing but blanks go without one. -/
theorem evaluate_blanks :
    (∀ a w b : String, Apart a.toList b.toList → (∀ c ∈ w.toList, Text.isBlank c) →
      evaluate (a ++ w ++ b) = evaluate (a ++ b) ∧
        evaluate? (a ++ w ++ b) = (evaluate? (a ++ b)).mapError (·.shiftFrom a.utf8ByteSize w.utf8ByteSize)) ∧
    (∀ s, evaluate (Text.trim s) = evaluate s ∧
      evaluate? s = (evaluate? (Text.trim s)).mapError (·.shift (leadingBlanks s).utf8ByteSize)) ∧
    (∀ (text : String) (prompt : Option String) (repeats : Bool) (input : List UInt8),
      (Console.Invocation.calculate ⟨some text, prompt, repeats⟩).run input = ⟨evaluate text ++ "\n", 0⟩) ∧
    ∀ (line : List UInt8) (text : String) (repeats : Bool), Console.decode? line = some text →
      (Console.turn repeats line).1 = if repeats ∧ Text.trim text = "" then "" else evaluate text ++ "\n" := by
  refine ⟨fun a w b h hw => ?_, fun s => ⟨evaluate_trim s, evaluate?_trim s⟩, fun text prompt repeats input => ?_,
    fun line text repeats h => Console.turn_answers h repeats⟩
  · have hoc := evaluate?_with_blanks h hw
    exact ⟨evaluate_of_mapError hoc (EvalError.userMessage_shiftFrom _ _), hoc⟩
  · change Console.Exit.mk (Console.answer text) 0 = _
    rw [Console.answer_eq]

theorem evaluate_wide_blanks :
    evaluate? "1\u2003\u00a0+é" = .error (.invalidCharacter 'é' 7) ∧
      (Console.turn true [0xc2, 0xa0, 0x37, 13, 10]).1 = "Result: 7.0\n" := by
  obtain ⟨hblanks, -, -, hline⟩ := evaluate_blanks
  have hw : ∀ c ∈ "\u2003\u00a0".toList, Text.isBlank c := List.all_eq_true.mp (by decide)
  constructor
  · have hplain : evaluate? "1+é" = .error (.invalidCharacter 'é' 2) := by decide +kernel
    have h := (hblanks "1" "\u2003\u00a0" "+é" (.inr (by rintro d ⟨⟩; rfl)) hw).2
    exact h.trans (congrArg (Except.mapError _) hplain)
  · rw [hline _ "\u00a07\r\n" true (by decide +kernel), if_neg (by decide +kernel)]
    decide +kernel

end Calculator
