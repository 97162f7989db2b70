import Calculator.Proofs.Enclosing
import Calculator.Proofs.Faithful

namespace Calculator

open Binary64

def InPlainRange (v : Float) : Prop :=
  v.isFinite = true ∧ (magnitude (rank v) = 0 ∨ 10 ^ (-4 : ℤ) ≤ magnitude (rank v) ∧ magnitude (rank v) < 10 ^ 16)

instance (v : Float) : Decidable (InPlainRange v) :=
  decidable_of_iff (v.isFinite = true ∧ Layout.result.plain (Decimal.shortest (rank v)).order = true)
    (and_congr_right fun h => Decimal.plain_shortest ((isFinite_iff v).mp h))

def firstLetter (v : Float) : Char := if v.isFinite then 'e' else if v.isNaN then 'n' else 'i'

theorem straysAt_of_toList {s : String} {before after : List Char} {c : Char} (hs : s.toList = before ++ c :: after)
    (hbefore : ∀ d ∈ before, Alphabet d) (hc : ¬ Alphabet c) :
    StraysAt s (String.ofList before) c (String.ofList after) := by
  refine ⟨?_, fun d hd => hbefore d (by simpa using hd), hc⟩
  rw [← String.toList_inj, hs]
  simp

theorem StraysAt.not_mem {s before after : String} {c : Char} (h : StraysAt s before c after) : c ∉ before.toList :=
  fun hm => h.2.2 (h.2.1 c hm)

theorem alphabet_sign (negative : Bool) : ∀ c ∈ Layout.sign negative, Alphabet c := by
  cases negative with
  | true => exact List.forall_mem_singleton.mpr (by decide)
  | false => exact List.forall_mem_nil _

namespace Written

variable {x : ℚ} {body : List Char}

theorem exists_literal (h : Written x body) (range : x = 0 ∨ 10 ^ (-4 : ℤ) ≤ x ∧ x < 10 ^ 16) :
    ∃ l : Literal, l.text.toList = body := by
  cases h with
  | @plain whole fraction _ hwhole hfraction hne _ _ =>
      obtain ⟨c, cs, rfl⟩ := List.exists_cons_of_ne_nil hne
      have hnumeric : ∀ d ∈ c :: cs ++ '.' :: fraction, Scan.isNumeric d := by
        refine List.forall_mem_append.mpr ⟨fun d hd => Numeral.isNumeric_of_isDigit (hwhole d hd), ?_⟩
        exact List.forall_mem_cons.mpr ⟨rfl, fun d hd => Numeral.isNumeric_of_isDigit (hfraction d hd)⟩
      have hcount : (c :: cs ++ '.' :: fraction).count '.' ≤ 1 := by
        rw [List.count_append, Numeral.count_point hwhole, List.count_cons_self, Numeral.count_point hfraction]
      refine ⟨⟨String.ofList (c :: cs ++ '.' :: fraction), ?_, ⟨c, ?_, hwhole c List.mem_cons_self⟩, ?_⟩, by simp⟩
      · rwa [String.toList_ofList]
      · simp
      · rwa [String.toList_ofList]
  | scientific hrange => exact absurd range hrange

theorem exists_exponent (h : Written x body) (range : ¬ (x = 0 ∨ 10 ^ (-4 : ℤ) ≤ x ∧ x < 10 ^ 16)) :
    ∃ mantissa exponent, body = mantissa ++ 'e' :: exponent ∧ ∀ c ∈ mantissa, Scan.isNumeric c := by
  cases h with
  | plain hrange => exact absurd hrange range
  | @scientific first sign fraction exponent _ hfirst hfraction _ _ _ _ =>
      refine ⟨_, sign :: exponent, rfl, List.forall_mem_append.mpr ⟨?_, ?_⟩⟩
      · exact List.forall_mem_singleton.mpr (Numeral.isNumeric_of_isDigit hfirst)
      · split_ifs with hnil
        · exact List.forall_mem_nil _
        · exact List.forall_mem_cons.mpr ⟨rfl, fun d hd => Numeral.isNumeric_of_isDigit (hfraction d hd)⟩

end Written

theorem format_of_inPlainRange {v : Float} (h : InPlainRange v) :
    ∃ l : Literal, (Layout.result.format v).toList = Layout.sign (isNegative v) ++ l.text.toList := by
  obtain ⟨hfinite, hrange⟩ := h
  have hlt : rank v < infinityRank := (isFinite_iff v).mp hfinite
  obtain ⟨l, hl⟩ := (Decimal.written_shortest hlt).exists_literal hrange
  exact ⟨l, by rw [Layout.toList_format_finite hlt, hl]⟩

/-- All other texts have a letter, and in front of the first one only what belongs to tokens. -/
theorem format_of_not_inPlainRange {v : Float} (h : ¬ InPlainRange v) :
    ∃ before after, StraysAt (Layout.result.format v) before (firstLetter v) after := by
  cases hnan : v.isNaN with
  | true =>
      have hfinite : ¬ v.isFinite = true := by
        rw [isFinite_iff, Nat.not_lt]
        exact ((isNaN_iff v).mp hnan).le
      rw [firstLetter, if_neg hfinite, if_pos hnan, Layout.format_nan hnan]
      exact ⟨"", "an", by decide⟩
  | false =>
      rcases ((isNaN_eq_false v).mp hnan).lt_or_eq with hlt | heq
      · have hfinite : v.isFinite = true := (isFinite_iff v).mpr hlt
        obtain ⟨mantissa, exponent, hbody, hmantissa⟩ :=
          (Decimal.written_shortest hlt).exists_exponent fun hrange => h ⟨hfinite, hrange⟩
        rw [firstLetter, if_pos hfinite]
        have htext : (Layout.result.format v).toList = (Layout.sign (isNegative v) ++ mantissa) ++ 'e' :: exponent := by
          rw [Layout.toList_format_finite hlt, hbody, List.append_assoc]
        have halphabet : ∀ c ∈ Layout.sign (isNegative v) ++ mantissa, Alphabet c :=
          List.forall_mem_append.mpr ⟨alphabet_sign _, fun c hc => Scan.alphabet_iff.mpr (.inl (hmantissa c hc))⟩
        exact ⟨_, _, straysAt_of_toList htext halphabet (by decide)⟩
      · have hfinite : ¬ v.isFinite = true := by
          rw [isFinite_iff, heq]
          exact Nat.lt_irrefl _
        rw [firstLetter, if_neg hfinite, if_neg (Bool.eq_false_iff.mp hnan)]
        exact ⟨_, _, straysAt_of_toList (Layout.toList_format_infinite heq) (alphabet_sign _) (by decide)⟩

theorem evaluate?_enclosed_flat {s : String} {ts : List Token} (h : tokenize s = .ok ts) (hts : Flat ts) (d : Nat) :
    evaluate? (enclosed d s) = (reduce ts).outcome := by
  obtain ⟨ho, hc⟩ := flat_iff.mp hts
  rw [evaluate?_eq_read, tokenize_enclosed, h]
  change Nesting.start.read (nested d ts) >>= Nesting.finish = _
  rw [Nesting.read_nested_finish (Balanced.of_not_mem ho hc), Nesting.read_flat hts]
  exact if_pos ⟨rfl, hc⟩

theorem evaluate?_enclosed_stray {s before after : String} {c : Char} (h : StraysAt s before c after) (d : Nat) :
    evaluate? (enclosed d s) = .error (.invalidCharacter c (d + before.utf8ByteSize)) := by
  rw [evaluate?_eq_read, tokenize_enclosed, tokenize_of_stray h, Nat.add_comm]
  rfl

theorem tokenize_literal (l : Literal) {s : String} (hs : s.toList = l.text.toList) :
    tokenize s = .ok [.literal l.text] := by
  obtain ⟨hne, hall⟩ := l.lexical.numeric
  rw [String.toList_inj.mp hs]
  exact tokenize_number hne hall

theorem tokenize_signed_literal (l : Literal) {s : String} (hs : s.toList = '-' :: l.text.toList) :
    tokenize s = .ok [.operator .subtract, .literal l.text] := by
  have hspaced : Spaced [.operator .subtract, .literal l.text] ('-' :: (l.text.toList ++ [])) :=
    .token (.operator .subtract) (.token _ .nil)
  rw [List.append_nil, ← hs] at hspaced
  refine tokenize_of_spaced hspaced ?_ (List.isChain_cons.mpr ⟨nofun, List.isChain_singleton _⟩)
  exact List.forall_mem_cons.mpr ⟨.operator _, List.forall_mem_singleton.mpr l.lexical⟩

theorem reduce_signed_literal (l : Literal) :
    (reduce [.operator .subtract, .literal l.text]).outcome = .error (.expectedOperand 0) := by
  have hterms : Term.ofTokens [.operator .subtract, .literal l.text] = .ok [.operator .subtract, .value l.value] := by
    rw [Term.ofTokens, Term.ofTokens, Term.ofToken, Term.ofToken, l.read]
    rfl
  rw [reduce_outcome, hterms]
  rfl

/-- The text of a result is an expression with that result if it has neither a sign nor an exponent, in any number of
parentheses. With a sign alone it lacks an operand. Any other text is refused for its first letter. -/
theorem evaluate?_format (v : Float) (d : Nat) :
    (InPlainRange v → isNegative v = false →
      evaluate? (enclosed d (Layout.result.format v)) = .ok v ∧
      evaluate (enclosed d (Layout.result.format v)) = "Result: " ++ Layout.result.format v) ∧
    (InPlainRange v → isNegative v = true →
      evaluate? (enclosed d (Layout.result.format v)) = .error (.expectedOperand 0)) ∧
    (¬ InPlainRange v → ∃ before after,
      Layout.result.format v = before ++ String.singleton (firstLetter v) ++ after ∧
      firstLetter v ∉ before.toList ∧
      evaluate? (enclosed d (Layout.result.format v)) =
        .error (.invalidCharacter (firstLetter v) (d + before.utf8ByteSize))) := by
  refine ⟨fun hplain hpositive => ?_, fun hplain hnegative => ?_, fun hplain => ?_⟩
  · obtain ⟨l, hl⟩ := format_of_inPlainRange hplain
    rw [hpositive] at hl
    have hnan : v.isNaN = false := (isNaN_eq_false v).mpr ((isFinite_iff v).mp hplain.1).le
    have hread : (Operand.literal l.text).read = .ok v := by
      rw [Operand.read, ← String.toList_inj.mp hl, Layout.read?_format hnan]
    have hvalue : evaluate? (enclosed d (Layout.result.format v)) = .ok v :=
      (evaluate?_enclosed_flat (tokenize_literal l hl) (flat_singleton rfl) d).trans (reduce_operand hread)
    exact ⟨hvalue, evaluate_of_ok hvalue⟩
  · obtain ⟨l, hl⟩ := format_of_inPlainRange hplain
    rw [hnegative] at hl
    have hflat : Flat [.operator .subtract, .literal l.text] := List.forall_mem_cons.mpr ⟨rfl, flat_singleton rfl⟩
    exact (evaluate?_enclosed_flat (tokenize_signed_literal l hl) hflat d).trans (reduce_signed_literal l)
  · obtain ⟨before, after, hstray⟩ := format_of_not_inPlainRange hplain
    exact ⟨before, after, hstray.1, hstray.not_mem, evaluate?_enclosed_stray hstray d⟩

theorem evaluate?_format_sum_of_tenths :
    evaluate "((0.30000000000000004))" = "Result: 0.30000000000000004" ∧
      evaluate? "(-0.0)" = .error (.expectedOperand 0) ∧
      ∃ before after, "-1.5e-05" = before ++ String.singleton 'e' ++ after ∧ 'e' ∉ before.toList ∧
        evaluate? "((-1.5e-05))" = .error (.invalidCharacter 'e' (2 + before.utf8ByteSize)) := by
  have hsum : Layout.result.format (Float.ofBits 0x3FD3333333333334) = "0.30000000000000004" := by decide +kernel
  have hzero : Layout.result.format (-0.0) = "-0.0" := by decide +kernel
  have hsmall : Layout.result.format (Float.ofBits 0xBEEF75104D551D69) = "-1.5e-05" := by decide +kernel
  have hletter : firstLetter (Float.ofBits 0xBEEF75104D551D69) = 'e' := by decide +kernel
  refine ⟨?_, ?_, ?_⟩
  · have h := ((evaluate?_format (Float.ofBits 0x3FD3333333333334) 2).1 (by decide +kernel) (by decide +kernel)).2
    rwa [hsum] at h
  · have h := (evaluate?_format (-0.0) 1).2.1 (by decide +kernel) (by decide +kernel)
    rwa [hzero] at h
  · have h := (evaluate?_format (Float.ofBits 0xBEEF75104D551D69) 2).2.2 (by decide +kernel)
    rwa [hsmall, hletter] at h

end Calculator
