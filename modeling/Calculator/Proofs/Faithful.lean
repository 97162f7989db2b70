import Calculator.Evaluation
import Calculator.Proofs.Bits
import Calculator.Proofs.Written

namespace Calculator

open Binary64

/-- How the magnitude `x` is written: with a point in the middle range, and with an exponent outside of it. -/
inductive Written (x : ℚ) : List Char → Prop
  | plain {whole fraction : List Char} (range : x = 0 ∨ 10 ^ (-4 : ℤ) ≤ x ∧ x < 10 ^ 16)
      (whole_digits : ∀ c ∈ whole, c.isDigit) (fraction_digits : ∀ c ∈ fraction, c.isDigit) (whole_ne : whole ≠ [])
      (fraction_ne : fraction ≠ []) (integral : ∀ k : ℕ, x = k → fraction = ['0']) :
      Written x (whole ++ '.' :: fraction)
  | scientific {first sign : Char} {fraction exponent : List Char}
      (range : ¬ (x = 0 ∨ 10 ^ (-4 : ℤ) ≤ x ∧ x < 10 ^ 16)) (first_digit : first.isDigit)
      (fraction_digits : ∀ c ∈ fraction, c.isDigit) (trailing : fraction.getLast? ≠ some '0')
      (sign_eq : sign = '+' ∨ sign = '-') (exponent_digits : ∀ c ∈ exponent, c.isDigit)
      (exponent_length : 2 ≤ exponent.length) :
      Written x ([first] ++ (if fraction = [] then [] else '.' :: fraction) ++ 'e' :: sign :: exponent)

theorem Written.exists_cons {x : ℚ} {body : List Char} (h : Written x body) :
    ∃ c cs, body = c :: cs ∧ c.isDigit := by
  cases h with
  | @plain whole fraction _ hdigits _ hne _ _ =>
      obtain ⟨c, cs, rfl⟩ := List.exists_cons_of_ne_nil hne
      exact ⟨c, cs ++ '.' :: fraction, rfl, hdigits c List.mem_cons_self⟩
  | scientific _ hfirst => exact ⟨_, _, rfl, hfirst⟩

namespace Decimal

theorem getLast?_toDigits (m : Nat) : (Nat.toDigits 10 m).getLast? = some (m % 10).digitChar := by
  rw [Nat.toDigits_eq_if (by decide)]
  split_ifs with h
  · rw [Nat.mod_eq_of_lt h]
    rfl
  · rw [List.getLast?_concat]

theorem plain_shortest {n : Nat} (hn : n < infinityRank) :
    Layout.result.plain (shortest n).order = true ↔
      magnitude n = 0 ∨ 10 ^ (-4 : ℤ) ≤ magnitude n ∧ magnitude n < 10 ^ 16 := by
  by_cases hpos : n = 0
  · subst hpos
    exact iff_of_true rfl (Or.inl magnitude_zero)
  · have hne : magnitude n ≠ 0 := (magnitude_zero ▸ magnitude_strictMono (Nat.pos_of_ne_zero hpos)).ne'
    rw [or_iff_right hne, ← order_shortest_bounds hpos hn]
    simp [Layout.result]

theorem exponent_shortest_nonneg {n : Nat} (hn : n < infinityRank) {k : Nat} (hk : magnitude n = k) :
    0 ≤ (shortest n).exponent := by
  by_cases hpos : n = 0
  · subst hpos
    rfl
  · exact exponent_nonneg_of_whole hpos hn hk

theorem written_shortest {n : Nat} (hn : n < infinityRank) :
    Written (magnitude n) (Layout.result.writeDecimal (shortest n)) := by
  obtain ⟨ds, hds⟩ : ∃ ds, ds = Nat.toDigits 10 (shortest n).digits := ⟨_, rfl⟩
  have hd : ∀ c ∈ ds, c.isDigit := hds ▸ Numeral.isDigit_toDigits _
  have hne : ds ≠ [] := hds ▸ Nat.toDigits_ne_nil
  have horder : (shortest n).order = ds.length + (shortest n).exponent := by rw [order, hds]
  rw [Layout.writeDecimal, ← hds, horder]
  split_ifs with hplain
  · rw [← horder, plain_shortest hn] at hplain
    obtain ⟨whole, fraction, htext, h⟩ :=
      Layout.writePlain_pointed hd hne (l := Layout.result) rfl (shortest n).exponent
    rw [htext]
    exact .plain hplain h.whole_digits h.fraction_digits h.whole_ne h.fraction_ne fun k hk =>
      h.integral (exponent_shortest_nonneg hn hk)
  · rw [← horder, plain_shortest hn] at hplain
    obtain ⟨c, cs, hcons⟩ := List.exists_cons_of_ne_nil hne
    obtain ⟨hc, hcs⟩ := List.forall_mem_cons.mp (hcons ▸ hd)
    have hpos : n ≠ 0 := by
      rintro rfl
      exact hplain (Or.inl magnitude_zero)
    -- A zero at the end of the fraction would be the last digit of all.
    have htrailing : cs.getLast? ≠ some '0' := by
      intro hlast
      have h : (c :: cs).getLast? = some ((shortest n).digits % 10).digitChar := by
        rw [← hcons, hds, getLast?_toDigits]
      rw [List.getLast?_cons, hlast] at h
      exact digits_shortest_mod_ten hpos hn (Nat.zero_eq_digitChar.mp (Option.some.inj h))
    rw [hcons, Layout.writeScientific_cons, Layout.writeExponent]
    refine .scientific hplain hc hcs htrailing (ite_eq_or_eq _ _ _).symm ?_ ?_
    · exact Numeral.isDigit_zeros_append _ (Numeral.isDigit_toDigits _)
    · rw [List.length_append, List.length_replicate]
      omega

end Decimal

namespace Layout

open Numeral

theorem toList_format (v : Float) : (result.format v).toList = result.write (.ofFloat v) := String.toList_ofList

theorem format_nan {v : Float} (hv : v.isNaN = true) : result.format v = "nan" := by
  have h : infinityRank < rank v := (isNaN_iff v).mp hv
  rw [format, ofFloat, if_neg (Nat.lt_asymm h), if_neg h.ne']
  rfl

theorem toList_format_infinite {v : Float} (hv : rank v = infinityRank) :
    (result.format v).toList = sign (isNegative v) ++ ['i', 'n', 'f'] := by
  rw [toList_format, ofFloat, if_neg hv.not_lt, if_pos hv]
  rfl

theorem toList_format_finite {v : Float} (hv : rank v < infinityRank) :
    (result.format v).toList = sign (isNegative v) ++ result.writeDecimal (Decimal.shortest (rank v)) := by
  rw [toList_format, ofFloat, if_pos hv]
  rfl

theorem ofList?_format {v : Float} (hv : rank v < infinityRank) :
    ∃ d, ofList? (result.format v).toList = some (.finite (isNegative v) d) ∧
      d.value = (Decimal.shortest (rank v)).value := by
  obtain ⟨c, cs, hbody, hc⟩ := (Decimal.written_shortest hv).exists_cons
  obtain ⟨d, hd, hvalue⟩ := decimal?_writeDecimal (l := result) rfl (Decimal.shortest (rank v))
  rw [toList_format_finite hv, hbody, ofList?_of_head (sign_sign _) (isNumeric_of_isDigit hc), ← hbody, hd]
  exact ⟨d, rfl, hvalue⟩

theorem read?_format {v : Float} (hv : v.isNaN = false) : read? (result.format v) = some v := by
  have hle : rank v ≤ infinityRank := (isNaN_eq_false v).mp hv
  rcases hle.lt_or_eq with hlt | heq
  · obtain ⟨d, hd, hvalue⟩ := ofList?_format hlt
    have hrank : d.rank = rank v := (Decimal.rank_congr hvalue).trans (Decimal.rank_shortest hlt)
    rw [read?, hd]
    change some (ofRank (isNegative v) d.rank) = some v
    rw [hrank, ofRank_rank hle]
  · have hword : ofList? (sign (isNegative v) ++ ['i', 'n', 'f']) = some (.infinite (isNegative v)) := by
      cases isNegative v <;> decide
    rw [read?, toList_format_infinite heq, hword]
    change some (ofRank (isNegative v) infinityRank) = some v
    rw [← heq, ofRank_rank hle]

theorem format_eq_nan (v : Float) : result.format v = "nan" ↔ v.isNaN = true := by
  refine ⟨fun h => ?_, format_nan⟩
  cases hv : v.isNaN with
  | true => rfl
  | false =>
      have hread : read? "nan" = some (toFloat .nan) := rfl
      have hnan : (toFloat .nan).isNaN = true := by decide +kernel
      have hsome := read?_format hv
      rw [h, hread] at hsome
      rw [← hv, ← Option.some.inj hsome, hnan]

theorem format_inj {v w : Float} :
    result.format v = result.format w ↔ v.toBits = w.toBits ∨ v.isNaN = true ∧ w.isNaN = true := by
  constructor
  · intro h
    cases hv : v.isNaN with
    | true => exact Or.inr ⟨rfl, (format_eq_nan w).mp (h ▸ format_nan hv)⟩
    | false =>
        cases hw : w.isNaN with
        | true => exact absurd ((format_eq_nan v).mp (h.trans (format_nan hw))) (Bool.eq_false_iff.mp hv)
        | false =>
            have hread := read?_format hv
            rw [h, read?_format hw] at hread
            exact Or.inl (congrArg Float.toBits (Option.some.inj hread).symm)
  · rintro (h | ⟨hv, hw⟩)
    · rw [toBits_injective h]
    · rw [format_nan hv, format_nan hw]

end Layout

theorem toBits_ofBits_of_not_isNaN {bits : UInt64} (h : (Float.ofBits bits).isNaN = false) :
    (Float.ofBits bits).toBits = bits := by
  rw [← Bool.not_eq_true, isNaN_ofBits, Nat.not_lt] at h
  exact toBits_ofBits h

theorem evaluate_of_ok {s : String} {v : Float} (h : evaluate? s = .ok v) :
    evaluate s = "Result: " ++ Layout.result.format v := by
  rw [evaluate, h]

/-- A result is written so that it is read back bit for bit. Two results are therefore written alike only if they are
the same, or both no numbers. The sign is written if its bit is set, and the rest as its size asks for. -/
theorem format_faithful :
    (∀ bits : UInt64,
      ((Float.ofBits bits).isNaN = false →
        (Numeral.read? (Layout.result.format (Float.ofBits bits))).map Float.toBits = some bits) ∧
      ((Float.ofBits bits).isNaN = true → Layout.result.format (Float.ofBits bits) = "nan")) ∧
    (∀ a b : UInt64, (Float.ofBits a).isNaN = false → (Float.ofBits b).isNaN = false →
      Layout.result.format (Float.ofBits a) = Layout.result.format (Float.ofBits b) → a = b) ∧
    (∀ (s t : String) (v w : Float), evaluate? s = .ok v → evaluate? t = .ok w →
      (evaluate s = evaluate t ↔ v.toBits = w.toBits ∨ v.isNaN = true ∧ w.isNaN = true)) ∧
    ∀ v : Float, v.isFinite = true →
      ∃ body, (Layout.result.format v).toList = (if isNegative v then ['-'] else []) ++ body ∧
        Written (magnitude (rank v)) body := by
  refine ⟨fun bits => ⟨fun h => ?_, Layout.format_nan⟩, fun a b ha hb h => ?_, fun s t v w hs ht => ?_, fun v hv => ?_⟩
  · rw [Layout.read?_format h]
    exact congrArg some (toBits_ofBits_of_not_isNaN h)
  · have hread := Layout.read?_format ha
    rw [h, Layout.read?_format hb] at hread
    rw [← toBits_ofBits_of_not_isNaN ha, ← toBits_ofBits_of_not_isNaN hb, Option.some.inj hread]
  · rw [evaluate_of_ok hs, evaluate_of_ok ht, String.append_right_inj, Layout.format_inj]
  · have hlt : rank v < infinityRank := (isFinite_iff v).mp hv
    exact ⟨_, Layout.toList_format_finite hlt, Decimal.written_shortest hlt⟩

theorem format_sum_of_tenths :
    (Numeral.read? (Layout.result.format (Float.ofBits 0x3FD3333333333334))).map Float.toBits =
        some 0x3FD3333333333334 ∧
      evaluate "0.1+0.2" = evaluate "0.30000000000000004" ∧ evaluate "0.1+0.2" ≠ evaluate "0.3" ∧
      ∃ body, (Layout.result.format (Float.ofBits 0xBEEF75104D551D69)).toList = '-' :: body ∧
        Written (magnitude (rank (Float.ofBits 0xBEEF75104D551D69))) body := by
  obtain ⟨hread, -, hsame, hwritten⟩ := format_faithful
  have hsum : evaluate? "0.1+0.2" = .ok (Float.ofBits 0x3FD3333333333334) := by decide +kernel
  have hlong : evaluate? "0.30000000000000004" = .ok (Float.ofBits 0x3FD3333333333334) := by decide +kernel
  have hshort : evaluate? "0.3" = .ok (Float.ofBits 0x3FD3333333333333) := by decide +kernel
  refine ⟨(hread _).1 (by decide +kernel), (hsame _ _ _ _ hsum hlong).mpr (Or.inl rfl), ?_, ?_⟩
  · exact mt (hsame _ _ _ _ hsum hshort).mp (by decide +kernel)
  · obtain ⟨body, htext, hbody⟩ := hwritten (Float.ofBits 0xBEEF75104D551D69) (by decide +kernel)
    rw [if_pos (by decide +kernel)] at htext
    exact ⟨body, htext, hbody⟩

end Calculator
