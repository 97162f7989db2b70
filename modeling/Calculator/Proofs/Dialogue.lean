import Calculator.Console.Dialogue
import Mathlib.Data.List.ReduceOption

namespace Calculator.Console

/-- The input is cut after each line feed and nowhere else. Nothing is lost. -/
structure CutIntoLines (input : List UInt8) (lines : List (List UInt8)) : Prop where
  whole : lines.flatten = input
  full : ∀ line ∈ lines, line ≠ []
  ended : ∀ line ∈ lines.dropLast, line.getLast? = some 10
  unbroken : ∀ line ∈ lines, 10 ∉ line.dropLast

theorem splitLines_append {body : List UInt8} (h : 10 ∉ body) (rest : List UInt8) :
    splitLines (body ++ 10 :: rest) = (body ++ [10]) :: splitLines rest := by
  induction body with
  | nil => exact if_pos rfl
  | cons b body ih =>
      obtain ⟨hb, hbody⟩ := not_or.mp (mt List.mem_cons.mpr h)
      rw [List.cons_append, splitLines, if_neg (Ne.symm hb), ih hbody]
      rfl

theorem splitLines_of_not_mem {line : List UInt8} (h : 10 ∉ line) (hne : line ≠ []) : splitLines line = [line] := by
  induction line with
  | nil => exact absurd rfl hne
  | cons b line ih =>
      obtain ⟨hb, hline⟩ := not_or.mp (mt List.mem_cons.mpr h)
      rw [splitLines, if_neg (Ne.symm hb)]
      cases line with
      | nil => rfl
      | cons c line => rw [ih hline (List.cons_ne_nil _ _)]

theorem CutIntoLines.tail {line : List UInt8} {lines : List (List UInt8)} {input : List UInt8}
    (h : CutIntoLines input (line :: lines)) : CutIntoLines lines.flatten lines where
  whole := rfl
  full := (List.forall_mem_cons.mp h.full).2
  ended := by
    cases lines with
    | nil => exact nofun
    | cons next lines => exact (List.forall_mem_cons.mp h.ended).2
  unbroken := (List.forall_mem_cons.mp h.unbroken).2

theorem CutIntoLines.cons {body rest : List UInt8} {lines : List (List UInt8)} (hbody : 10 ∉ body)
    (h : CutIntoLines rest lines) : CutIntoLines (body ++ 10 :: rest) ((body ++ [10]) :: lines) where
  whole := by rw [List.flatten_cons, h.whole, List.append_assoc]; rfl
  full := List.forall_mem_cons.mpr ⟨by simp, h.full⟩
  ended := by
    cases lines with
    | nil => exact nofun
    | cons next lines => exact List.forall_mem_cons.mpr ⟨by simp, h.ended⟩
  unbroken := List.forall_mem_cons.mpr ⟨by rwa [List.dropLast_concat], h.unbroken⟩

theorem cut_splitLines (input : List UInt8) : CutIntoLines input (splitLines input) := by
  by_cases h : 10 ∈ input
  · obtain ⟨body, rest, hinput, hbody⟩ := List.eq_append_cons_of_mem h
    have hlength : rest.length < input.length := by
      rw [hinput, List.length_append, List.length_cons]
      omega
    rw [hinput, splitLines_append hbody]
    exact (cut_splitLines rest).cons hbody
  · by_cases hne : input = []
    · subst hne
      exact ⟨rfl, nofun, nofun, nofun⟩
    · rw [splitLines_of_not_mem h hne]
      have hunbroken : 10 ∉ input.dropLast := fun hm => h ((List.dropLast_sublist input).subset hm)
      exact ⟨by simp, by simpa using hne, nofun, by simpa using hunbroken⟩
termination_by input.length

theorem CutIntoLines.eq_splitLines {lines : List (List UInt8)} {input : List UInt8} (h : CutIntoLines input lines) :
    lines = splitLines input := by
  induction lines generalizing input with
  | nil =>
      cases h.whole
      rfl
  | cons line lines ih =>
      obtain ⟨body, b, rfl⟩ := (List.eq_nil_or_concat' line).resolve_left (h.full _ List.mem_cons_self)
      have hbody : 10 ∉ body := by simpa using h.unbroken _ List.mem_cons_self
      have hwhole : input = body ++ b :: lines.flatten := by simp [← h.whole]
      by_cases hb : b = 10
      · subst hb
        rw [hwhole, splitLines_append hbody, ← ih h.tail]
      · -- Only the last line may end in another way.
        have hlast : lines = [] := by
          cases lines with
          | nil => rfl
          | cons next lines =>
              have hend := h.ended _ List.mem_cons_self
              rw [List.getLast?_concat] at hend
              exact absurd (Option.some.inj hend) hb
        subst hlast
        have hline : 10 ∉ body ++ [b] := by simp [hbody, Ne.symm hb]
        rw [hwhole, List.flatten_nil, splitLines_of_not_mem hline (by simp)]

theorem cut_iff {lines : List (List UInt8)} {input : List UInt8} : CutIntoLines input lines ↔ lines = splitLines input :=
  ⟨CutIntoLines.eq_splitLines, fun h => h ▸ cut_splitLines input⟩

def texts (lines : List (List UInt8)) : List String := ((lines.map decode?).takeWhile Option.isSome).reduceOption

def reply (text : String) : String := if Text.trim text = "" then "" else evaluate (Text.trim text) ++ "\n"

theorem texts_of_none {line : List UInt8} (h : decode? line = none) (lines : List (List UInt8)) :
    texts (line :: lines) = [] := by
  rw [texts, List.map_cons, List.takeWhile_cons_of_neg (by simp [h])]
  rfl

theorem texts_of_some {line : List UInt8} {text : String} (h : decode? line = some text) (lines : List (List UInt8)) :
    texts (line :: lines) = text :: texts lines := by
  rw [texts, List.map_cons, List.takeWhile_cons_of_pos (by simp [h]), h, List.reduceOption_cons_of_some]
  rfl

theorem turn_of_none {line : List UInt8} (h : decode? line = none) (repeats : Bool) :
    turn repeats line = ("", some 1) := by
  rw [turn, h]

theorem turn_repeating {line : List UInt8} {text : String} (h : decode? line = some text) :
    turn true line = (reply text, none) := by
  rw [turn, h, reply]
  change (if (Text.trim text).isEmpty then "" else answer text, none) = _
  simp only [String.isEmpty_iff, answer]

theorem dialogue_repeating (prompt : String) (lines : List (List UInt8)) :
    dialogue prompt true lines =
      ⟨String.join ((texts lines).map fun text => prompt ++ reply text) ++ prompt,
        if ∀ line ∈ lines, (decode? line).isSome then 0 else 1⟩ := by
  induction lines with
  | nil => simp [dialogue, texts]
  | cons line lines ih =>
      cases hline : decode? line with
      | none =>
          have hall : ¬ ∀ l ∈ line :: lines, (decode? l).isSome := by simp [hline]
          rw [dialogue, turn_of_none hline, texts_of_none hline, if_neg hall]
          simp
      | some text =>
          have hall : (∀ l ∈ line :: lines, (decode? l).isSome) ↔ ∀ l ∈ lines, (decode? l).isSome := by simp [hline]
          rw [dialogue, turn_repeating hline, texts_of_some hline, List.map_cons, String.join_cons]
          simp only [ih, hall, String.append_assoc]

theorem ofArguments_separated (text : String) :
    Invocation.ofArguments .unset ["--", text] = .calculate ⟨some text, none, false⟩ := by
  have h : Argument.ofString "--" = .separator := by decide +kernel
  rw [Invocation.ofArguments, h]
  rfl

/-- The lines of the input are answered one after the other, each one as if it were given as an argument. A program
that repeats passes over blank lines and goes on up to the end or to a line that is no text; one that does not
answers the first line only. The answer to an argument depends on nothing else. -/
theorem run_by_lines (prompt : Option String) (input : List UInt8) :
    (∀ lines, CutIntoLines input lines ↔ lines = splitLines input) ∧
      (Invocation.calculate ⟨none, prompt, true⟩).run input =
        ⟨String.join ((texts (splitLines input)).map fun text => prompt.getD defaultPrompt ++ reply text) ++
            prompt.getD defaultPrompt,
          if ∀ line ∈ splitLines input, (decode? line).isSome then 0 else 1⟩ ∧
      (Invocation.calculate ⟨none, prompt, false⟩).run input =
        (match (splitLines input).head?.map decode? with
        | none => ⟨prompt.getD defaultPrompt, 0⟩
        | some none => ⟨prompt.getD defaultPrompt, 1⟩
        | some (some text) => ⟨prompt.getD defaultPrompt ++ (evaluate (Text.trim text) ++ "\n"), 0⟩) ∧
      ∀ (text : String) (other : Option String) (repeats : Bool) (rest : List UInt8),
        (Invocation.calculate ⟨some text, other, repeats⟩).run rest = ⟨evaluate (Text.trim text) ++ "\n", 0⟩ ∧
        (Invocation.ofArguments .unset ["--", text]).run rest = ⟨evaluate (Text.trim text) ++ "\n", 0⟩ := by
  refine ⟨fun lines => cut_iff, dialogue_repeating _ _, ?_, fun text other repeats rest => ⟨rfl, ?_⟩⟩
  · change dialogue _ false (splitLines input) = _
    cases splitLines input with
    | nil => rfl
    | cons line lines =>
        cases hline : decode? line with
        | none =>
            rw [dialogue, turn_of_none hline]
            simp [hline]
        | some text =>
            rw [dialogue, turn, hline]
            simp [hline, answer]
  · rw [ofArguments_separated]
    rfl

end Calculator.Console
