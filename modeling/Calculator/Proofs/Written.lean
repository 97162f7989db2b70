import Calculator.Numeral.Reader
import Calculator.Numeral.Writer
import Calculator.Evaluation
import Calculator.Proofs.Bits
import Calculator.Proofs.Literals
import Calculator.Proofs.Shortest

namespace Calculator

namespace Numeral

theorem natural_zeros_append (k : Nat) (ds : List Char) : natural (List.replicate k '0' ++ ds) = natural ds := by
  rw [natural, Nat.ofDigitChars_append, Nat.ofDigitChars_replicate_zero, Nat.mul_zero]
  rfl

theorem natural_append_zeros (k : Nat) (ds : List Char) :
    natural (ds ++ List.replicate k '0') = 10 ^ k * natural ds := by
  rw [natural, Nat.ofDigitChars_append, Nat.ofDigitChars_replicate_zero]
  rfl

theorem natural_zero_cons (ds : List Char) : natural ('0' :: ds) = natural ds := natural_zeros_append 1 ds

theorem natural_toDigits (m : Nat) : natural (Nat.toDigits 10 m) = m := Nat.ofDigitChars_ten_toDigits

theorem isDigit_toDigits (m : Nat) : ∀ c ∈ Nat.toDigits 10 m, c.isDigit := fun _ hc =>
  Nat.isDigit_of_mem_toDigits (by decide) (by decide) hc

theorem isDigit_zeros (k : Nat) : ∀ c ∈ List.replicate k '0', c.isDigit := by
  intro c hc
  rw [List.eq_of_mem_replicate hc]
  rfl

theorem isDigit_zeros_append (k : Nat) {ds : List Char} (h : ∀ c ∈ ds, c.isDigit) :
    ∀ c ∈ List.replicate k '0' ++ ds, c.isDigit := List.forall_mem_append.mpr ⟨isDigit_zeros k, h⟩

theorem isDigit_append_zeros (k : Nat) {ds : List Char} (h : ∀ c ∈ ds, c.isDigit) :
    ∀ c ∈ ds ++ List.replicate k '0', c.isDigit := List.forall_mem_append.mpr ⟨h, isDigit_zeros k⟩

theorem sign_sign (negative : Bool) : Sign (Layout.sign negative) negative := by
  cases negative with
  | true => exact .minus
  | false => exact .none

theorem exponent_writeExponent (e : Int) : Exponent (Layout.writeExponent e) e := by
  have hne : List.replicate (2 - (Nat.toDigits 10 e.natAbs).length) '0' ++ Nat.toDigits 10 e.natAbs ≠ [] :=
    List.append_ne_nil_of_right_ne_nil _ Nat.toDigits_ne_nil
  have hd := isDigit_zeros_append (2 - (Nat.toDigits 10 e.natAbs).length) (isDigit_toDigits e.natAbs)
  have hvalue : natural (List.replicate (2 - (Nat.toDigits 10 e.natAbs).length) '0' ++ Nat.toDigits 10 e.natAbs) =
      e.natAbs := by rw [natural_zeros_append, natural_toDigits]
  rw [Layout.writeExponent]
  by_cases he : e < 0
  · have h := Exponent.marked (.inl rfl) .minus hd hne
    rw [if_pos rfl, hvalue, Int.ofNat_natAbs_of_nonpos he.le, neg_neg] at h
    rw [if_pos he]
    exact h
  · have h := Exponent.marked (.inl rfl) .plus hd hne
    rw [if_neg Bool.false_ne_true, hvalue, Int.natAbs_of_nonneg (not_lt.mp he)] at h
    rw [if_neg he]
    exact h

theorem decimal?_scientific {whole fraction exponent : List Char} {e : Int} (hw : ∀ c ∈ whole, c.isDigit)
    (hf : ∀ c ∈ fraction, c.isDigit) (hne : whole ≠ []) (he : Exponent exponent e) :
    decimal? (whole ++ (if fraction = [] then [] else '.' :: fraction) ++ exponent) =
      some ⟨natural (whole ++ fraction), e - fraction.length⟩ := by
  by_cases h : fraction = []
  · subst h
    rw [if_pos rfl, List.append_nil, decimal?_whole hw hne he]
    exact congrArg (fun x => some (Decimal.mk _ x)) (sub_zero e).symm
  · rw [if_neg h, List.append_assoc, List.cons_append,
      decimal?_point hw hf (List.append_ne_nil_of_left_ne_nil hne _) he]

end Numeral

namespace Layout

open Numeral Decimal

/-- Digits around a point that make up the number `ds * 10 ^ x`. -/
structure Pointed (ds : List Char) (x : Int) (whole fraction : List Char) : Prop where
  whole_digits : ∀ c ∈ whole, c.isDigit
  fraction_digits : ∀ c ∈ fraction, c.isDigit
  whole_ne : whole ≠ []
  fraction_ne : fraction ≠ []
  integral : 0 ≤ x → fraction = ['0']
  value : value ⟨natural (whole ++ fraction), -fraction.length⟩ = Decimal.value ⟨natural ds, x⟩

theorem writeScientific_cons (c : Char) (cs : List Char) (k : Int) :
    writeScientific (c :: cs) k = [c] ++ (if cs = [] then [] else '.' :: cs) ++ writeExponent (k - 1) := by
  cases cs with
  | nil => rfl
  | cons d cs => rfl

section

variable {ds : List Char} (hd : ∀ c ∈ ds, c.isDigit) (hne : ds ≠ [])
include hd hne

theorem writePlain_pointed {l : Layout} (hl : l.pointed) (x : Int) :
    ∃ whole fraction, l.writePlain ds (ds.length + x) = whole ++ '.' :: fraction ∧ Pointed ds x whole fraction := by
  obtain ⟨k, hk⟩ : ∃ k : Int, k = ds.length + x := ⟨_, rfl⟩
  have hpos : 0 < ds.length := List.length_pos_iff.mpr hne
  rw [← hk, writePlain, if_pos hl]
  split_ifs with hsmall hlarge
  · have hlength : -((List.replicate (-k).toNat '0' ++ ds).length : Int) = x := by
      rw [List.length_append, List.length_replicate]
      omega
    refine ⟨['0'], List.replicate (-k).toNat '0' ++ ds, rfl, ?_⟩
    refine ⟨List.forall_mem_singleton.mpr rfl, isDigit_zeros_append _ hd, by simp, by simp [hne], fun hx => by omega, ?_⟩
    rw [hlength, List.singleton_append, natural_zero_cons, natural_zeros_append]
  · have hlength : (-1 : Int) + ((k.toNat - ds.length + 1 : Nat) : Int) = x := by omega
    refine ⟨ds ++ List.replicate (k.toNat - ds.length) '0', ['0'], rfl, ?_⟩
    refine ⟨isDigit_append_zeros _ hd, List.forall_mem_singleton.mpr rfl, by simp [hne], by simp, fun _ => rfl, ?_⟩
    rw [List.append_assoc, ← List.replicate_succ', natural_append_zeros, List.length_singleton, Nat.cast_one,
      value_zeros, hlength]
  · have hlength : -((ds.drop k.toNat).length : Int) = x := by
      rw [List.length_drop]
      omega
    have htake : ds.take k.toNat ≠ [] := by
      rw [← List.length_pos_iff, List.length_take]
      omega
    have hdrop : ds.drop k.toNat ≠ [] := by
      rw [← List.length_pos_iff, List.length_drop]
      omega
    refine ⟨ds.take k.toNat, ds.drop k.toNat, rfl, ?_⟩
    refine ⟨fun c hc => hd c (List.mem_of_mem_take hc), fun c hc => hd c (List.mem_of_mem_drop hc), htake, hdrop,
      fun hx => by omega, ?_⟩
    rw [List.take_append_drop, hlength]

theorem decimal?_writeScientific (x : Int) :
    decimal? (writeScientific ds (ds.length + x)) = some ⟨natural ds, x⟩ := by
  obtain ⟨c, cs, rfl⟩ := List.exists_cons_of_ne_nil hne
  obtain ⟨hc, hcs⟩ := List.forall_mem_cons.mp hd
  have hlength : ((c :: cs).length : Int) + x - 1 - cs.length = x := by
    rw [List.length_cons]
    omega
  rw [writeScientific_cons, decimal?_scientific (by simpa using hc) hcs (by simp) (exponent_writeExponent _), hlength]
  rfl

end

/-- The digits may be padded with zeros, so it is the number that comes back and not the decimal. -/
theorem decimal?_writeDecimal {l : Layout} (hl : l.pointed) (d : Decimal) :
    ∃ e, decimal? (l.writeDecimal d) = some e ∧ e.value = d.value := by
  have hd := isDigit_toDigits d.digits
  have hne : Nat.toDigits 10 d.digits ≠ [] := Nat.toDigits_ne_nil
  rw [writeDecimal, order]
  split_ifs
  · obtain ⟨whole, fraction, htext, h⟩ := writePlain_pointed hd hne hl d.exponent
    have hread := decimal?_point h.whole_digits h.fraction_digits (by simp [h.whole_ne]) .absent
    rw [List.append_nil, zero_sub] at hread
    rw [htext, hread]
    exact ⟨_, rfl, by rw [h.value, natural_toDigits]⟩
  · rw [decimal?_writeScientific hd hne]
    exact ⟨_, rfl, by rw [natural_toDigits]⟩

end Layout

end Calculator
