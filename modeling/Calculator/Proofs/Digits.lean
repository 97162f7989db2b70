import Calculator.Proofs.Faithful
import Calculator.Proofs.Fewest
import Calculator.Proofs.Nearest
import Calculator.Proofs.Zero
import Mathlib.Data.List.DropRight

namespace Calculator

/-- The digits that count in the text of a number: none of the exponent, no zeros in front, and none of the zeros that
lead up to the `.0` of a whole number. -/
def significant (text : List Char) : List Char :=
  let mantissa := text.takeWhile (· != 'e')
  let counted := if ['.', '0'] <:+ mantissa then mantissa.rdropWhile (fun c => c == '0' || c == '.') else mantissa
  (counted.filter Char.isDigit).dropWhile (· == '0')

section Text

variable {ds mantissa rest front tail : List Char} {p : Char → Bool}

theorem takeWhile_mantissa (hm : ∀ c ∈ mantissa, c ≠ 'e') (hrest : ∀ c ∈ rest.head?, c = 'e') :
    (mantissa ++ rest).takeWhile (· != 'e') = mantissa := by
  rw [List.takeWhile_append_of_pos fun c hc => bne_iff_ne.mpr (hm c hc)]
  cases rest with
  | nil => exact List.append_nil mantissa
  | cons c cs =>
      rw [hrest c rfl]
      exact List.append_nil mantissa

theorem rdropWhile_append (htail : ∀ c ∈ tail, p c) (hfront : ∀ c ∈ front.getLast?, ¬ p c) :
    (front ++ tail).rdropWhile p = front := by
  have htail' : ∀ c ∈ tail.reverse, p c := fun c hc => htail c (List.mem_reverse.mp hc)
  rw [List.rdropWhile, List.reverse_append, List.dropWhile_append_of_pos htail', ← List.rdropWhile,
    List.rdropWhile_eq_self_iff]
  exact fun hne => hfront _ (List.getLast?_eq_some_getLast hne)

theorem Layout.filter_sign (negative : Bool) : (Layout.sign negative).filter Char.isDigit = [] := by
  cases negative <;> rfl

theorem ne_e_of_isDigit (hd : ∀ c ∈ ds, c.isDigit) : ∀ c ∈ ds, c ≠ 'e' := by
  rintro c hc rfl
  exact absurd (hd _ hc) (by decide)

theorem Layout.sign_append_ne_e (negative : Bool) (hd : ∀ c ∈ ds, c.isDigit) :
    ∀ c ∈ Layout.sign negative ++ ds, c ≠ 'e' := by
  refine List.forall_mem_append.mpr ⟨?_, ne_e_of_isDigit hd⟩
  cases negative with
  | false => exact nofun
  | true => exact List.forall_mem_singleton.mpr (by decide)

theorem Decimal.head?_toDigits {m : Nat} (hm : m ≠ 0) : (Nat.toDigits 10 m).head? ≠ some '0' := by
  induction m using Nat.strong_induction_on with
  | h m ih =>
      rw [Nat.toDigits_eq_if (by decide)]
      split_ifs with hlt
      · intro h
        exact hm (Nat.digitChar_eq_zero.mp (Option.some.inj h))
      · rw [List.head?_append_of_ne_nil _ Nat.toDigits_ne_nil]
        exact ih (m / 10) (by omega) (by omega)

end Text

/-- Digits with no zero at either end. -/
structure Trimmed (ds : List Char) : Prop where
  digits : ∀ c ∈ ds, c.isDigit
  ne_nil : ds ≠ []
  head : ds.head? ≠ some '0'
  last : ds.getLast? ≠ some '0'

namespace Trimmed

variable {ds mantissa rest : List Char} {j : Nat}

theorem toDigits {m : Nat} (hm : m % 10 ≠ 0) : Trimmed (Nat.toDigits 10 m) where
  digits := Numeral.isDigit_toDigits m
  ne_nil := Nat.toDigits_ne_nil
  head := Decimal.head?_toDigits (by omega)
  last := by
    rw [Decimal.getLast?_toDigits]
    exact fun h => hm (Nat.digitChar_eq_zero.mp (Option.some.inj h))

theorem dropWhile_zeros (h : Trimmed ds) (j : Nat) : (List.replicate j '0' ++ ds).dropWhile (· == '0') = ds := by
  obtain ⟨c, cs, rfl⟩ := List.exists_cons_of_ne_nil h.ne_nil
  have hc : c ≠ '0' := fun hc => h.head (congrArg some hc)
  rw [List.dropWhile_append_of_pos (by simp), List.dropWhile_cons_of_neg (by simpa using hc)]

theorem significant_fraction (h : Trimmed ds) (hm : ∀ c ∈ mantissa, c ≠ 'e') (hrest : ∀ c ∈ rest.head?, c = 'e')
    (hlast : mantissa.getLast? ≠ some '0') (hdigits : mantissa.filter Char.isDigit = List.replicate j '0' ++ ds) :
    significant (mantissa ++ rest) = ds := by
  have hpoint : ¬ ['.', '0'] <:+ mantissa := by
    rintro ⟨front, rfl⟩
    exact hlast (by simp)
  rw [significant, takeWhile_mantissa hm hrest, if_neg hpoint, hdigits, h.dropWhile_zeros]

theorem significant_whole (h : Trimmed ds) (negative : Bool) (j : Nat) :
    significant (Layout.sign negative ++ (ds ++ List.replicate j '0' ++ ['.', '0'])) = ds := by
  obtain ⟨text, htext⟩ : ∃ text, Layout.sign negative ++ (ds ++ List.replicate j '0' ++ ['.', '0']) = text := ⟨_, rfl⟩
  have hfront : text = (Layout.sign negative ++ ds) ++ (List.replicate j '0' ++ ['.', '0']) := by
    rw [← htext]
    simp only [List.append_assoc]
  have hm : ∀ c ∈ text, c ≠ 'e' := by
    rw [hfront]
    refine List.forall_mem_append.mpr ⟨Layout.sign_append_ne_e negative h.digits, ?_⟩
    exact List.forall_mem_append.mpr ⟨ne_e_of_isDigit (Numeral.isDigit_zeros j), by simp⟩
  have hpoint : ['.', '0'] <:+ text := by
    rw [hfront, ← List.append_assoc]
    exact List.suffix_append _ _
  have hlast : ∀ c ∈ (Layout.sign negative ++ ds).getLast?, ¬ (c == '0' || c == '.') := by
    rw [List.getLast?_append_of_ne_nil _ h.ne_nil]
    intro c hc
    have hzero : c ≠ '0' := fun hz => h.last (hz ▸ hc)
    have hpoint : c ≠ '.' := by
      rintro rfl
      exact absurd (h.digits _ (List.mem_of_mem_getLast? hc)) (by decide)
    simp [hzero, hpoint]
  have hzeros : ∀ c ∈ List.replicate j '0' ++ ['.', '0'], c == '0' || c == '.' :=
    List.forall_mem_append.mpr ⟨fun c hc => by rw [List.eq_of_mem_replicate hc]; rfl, by simp⟩
  have hmantissa : text.takeWhile (· != 'e') = text :=
    List.takeWhile_eq_self_iff.mpr fun c hc => bne_iff_ne.mpr (hm c hc)
  rw [htext, significant, hmantissa, if_pos hpoint, hfront, rdropWhile_append hzeros hlast, List.filter_append,
    Layout.filter_sign, List.nil_append, List.filter_eq_self.mpr h.digits]
  exact h.dropWhile_zeros 0

theorem significant_pointed (h : Trimmed ds) (negative : Bool) (whole : List Char) {fraction : List Char}
    (hne : fraction ≠ []) (hdigits : whole ++ fraction = List.replicate j '0' ++ ds) (hrest : ∀ c ∈ rest.head?, c = 'e') :
    significant (Layout.sign negative ++ (whole ++ '.' :: fraction) ++ rest) = ds := by
  have hd : ∀ c ∈ whole ++ fraction, c.isDigit := by
    rw [hdigits]
    exact Numeral.isDigit_zeros_append j h.digits
  obtain ⟨hw, hf⟩ := List.forall_mem_append.mp hd
  refine h.significant_fraction (j := j) ?_ hrest ?_ ?_
  · rw [← List.append_assoc]
    refine List.forall_mem_append.mpr ⟨Layout.sign_append_ne_e negative hw, ?_⟩
    exact List.forall_mem_cons.mpr ⟨by decide, ne_e_of_isDigit hf⟩
  · have hlast := congrArg List.getLast? hdigits
    rw [List.getLast?_append_of_ne_nil _ hne, List.getLast?_append_of_ne_nil _ h.ne_nil] at hlast
    rw [List.append_cons, ← List.append_assoc, List.getLast?_append_of_ne_nil _ hne, hlast]
    exact h.last
  · rw [List.filter_append, List.filter_append, Layout.filter_sign, List.filter_eq_self.mpr hw,
      List.filter_cons_of_neg (by decide), List.filter_eq_self.mpr hf, List.nil_append, hdigits]

theorem significant_writePlain (h : Trimmed ds) (negative : Bool) (k : Int) :
    significant (Layout.sign negative ++ Layout.result.writePlain ds k) = ds := by
  rw [Layout.writePlain, if_pos (show Layout.result.pointed = true from rfl)]
  split_ifs with hsmall hlarge
  · have hne : List.replicate (-k).toNat '0' ++ ds ≠ [] := List.append_ne_nil_of_right_ne_nil _ h.ne_nil
    rw [← List.append_nil (Layout.sign negative ++ _)]
    exact h.significant_pointed (j := (-k).toNat + 1) negative ['0'] hne rfl (by simp)
  · exact h.significant_whole negative _
  · have hdrop : ds.drop k.toNat ≠ [] := by
      rw [← List.length_pos_iff, List.length_drop]
      omega
    rw [← List.append_nil (Layout.sign negative ++ _)]
    exact h.significant_pointed (j := 0) negative _ hdrop (List.take_append_drop _ _) (by simp)

theorem significant_writeScientific (h : Trimmed ds) (negative : Bool) (k : Int) :
    significant (Layout.sign negative ++ Layout.writeScientific ds k) = ds := by
  obtain ⟨c, cs, rfl⟩ := List.exists_cons_of_ne_nil h.ne_nil
  have hexponent : ∀ d ∈ (Layout.writeExponent (k - 1)).head?, d = 'e' := by
    rintro d ⟨⟩
    rfl
  rw [Layout.writeScientific_cons, ← List.append_assoc]
  by_cases hcs : cs = []
  · subst hcs
    rw [if_pos rfl, List.append_nil]
    refine h.significant_fraction (j := 0) ?_ hexponent ?_ ?_
    · exact Layout.sign_append_ne_e negative h.digits
    · rw [List.getLast?_append_of_ne_nil _ h.ne_nil]
      exact h.last
    · rw [List.filter_append, Layout.filter_sign, List.filter_eq_self.mpr h.digits]
      rfl
  · rw [if_neg hcs]
    exact h.significant_pointed (j := 0) negative [c] hcs rfl hexponent

end Trimmed

section Value

open Binary64 Numeral

variable {v : Float} {k : Nat} {x : ℚ}

theorem abs_signed_sub (negative : Bool) (x y : ℚ) : |signed negative x - signed negative y| = |x - y| := by
  cases negative with
  | false => rfl
  | true => exact (congrArg abs (neg_sub_neg x y)).trans (abs_sub_comm y x)

/-- Numbers with at most `k` decimal digits that are read as the value `v`. -/
inductive ReadsAs (v : Float) (k : Nat) : ℚ → Prop
  | mk {negative : Bool} {m : Nat} (e : Int) : m < 10 ^ k → IsNearest negative (m * 10 ^ e) v →
      ReadsAs v k (signed negative (m * 10 ^ e))

theorem readsAs_iff (hv : rank v ≤ infinityRank) :
    ReadsAs v k x ↔ ∃ d : Decimal, d.digits < 10 ^ k ∧ d.rank = rank v ∧ x = signed (isNegative v) d.value := by
  constructor
  · rintro @⟨negative, m, e, hm, hnearest⟩
    have hvalue := (Decimal.isNearest_iff ⟨m, e⟩).mp hnearest
    have hle := Decimal.rank_le ⟨m, e⟩
    refine ⟨⟨m, e⟩, hm, ?_, ?_⟩
    · rw [hvalue, rank_ofRank negative hle]
    · rw [hvalue, isNegative_ofRank negative hle]
      rfl
  · rintro ⟨d, hd, hrank, rfl⟩
    refine ReadsAs.mk d.exponent hd ((Decimal.isNearest_iff d).mpr ?_)
    rw [hrank, ofRank_rank hv]

theorem significant_format (hpos : rank v ≠ 0) (hv : rank v < infinityRank) :
    significant (Layout.result.format v).toList = Nat.toDigits 10 (Decimal.shortest (rank v)).digits := by
  have h := Trimmed.toDigits (Decimal.digits_shortest_mod_ten hpos hv)
  rw [Layout.toList_format_finite hv, Layout.writeDecimal]
  split_ifs
  · exact h.significant_writePlain _ _
  · exact h.significant_writeScientific _ _

theorem spells_format (hv : rank v < infinityRank) :
    Spells (Layout.result.format v).toList (.exact (isNegative v) (Decimal.shortest (rank v)).value) := by
  obtain ⟨d, hd, hvalue⟩ := Layout.ofList?_format hv
  rw [← hvalue]
  exact spells_of_ofList? hd

/-- The text of a finite value other than zero has the fewest digits of all decimal numbers that are read as the value,
and of those with as many digits it is the nearest. -/
theorem format_fewest_digits (hfinite : v.isFinite = true) (hzero : (v == 0.0) = false) :
    ∃ x, Spells (Layout.result.format v).toList (.exact (isNegative v) x) ∧
      ReadsAs v (significant (Layout.result.format v).toList).length (signed (isNegative v) x) ∧
      (∀ k y, ReadsAs v k y → (significant (Layout.result.format v).toList).length ≤ k) ∧
      ∀ y, ReadsAs v (significant (Layout.result.format v).toList).length y →
        |signed (isNegative v) x - toRat v| ≤ |y - toRat v| := by
  have hv : rank v < infinityRank := (isFinite_iff v).mp hfinite
  have hpos : rank v ≠ 0 := by
    rw [Ne, ← beq_zero_iff_rank, hzero]
    exact Bool.false_ne_true
  rw [significant_format hpos hv]
  refine ⟨_, spells_format hv, ?_, fun k y hy => ?_, fun y hy => ?_⟩
  · have hdigits := (Decimal.length_toDigits (Decimal.digits_shortest_ne_zero hpos hv)).2
    exact (readsAs_iff hv.le).mpr ⟨_, hdigits, Decimal.rank_shortest hv, rfl⟩
  · obtain ⟨d, hd, hrank, -⟩ := (readsAs_iff hv.le).mp hy
    exact Decimal.length_shortest_le hpos hv hd hrank
  · obtain ⟨d, hd, hrank, rfl⟩ := (readsAs_iff hv.le).mp hy
    rw [toRat_eq hfinite, abs_signed_sub, abs_signed_sub]
    exact Decimal.shortest_nearest hpos hv hd hrank

theorem format_two_units :
    Layout.result.format (Float.ofBits 2) = "1e-323" ∧ significant "1e-323".toList = ['1'] ∧
      ∃ x, Spells "1e-323".toList (.exact false x) ∧ ReadsAs (Float.ofBits 2) 1 x ∧
        ∀ y, ReadsAs (Float.ofBits 2) 1 y → |x - toRat (Float.ofBits 2)| ≤ |y - toRat (Float.ofBits 2)| := by
  have htext : Layout.result.format (Float.ofBits 2) = "1e-323" := by decide +kernel
  have hdigits : significant "1e-323".toList = ['1'] := by decide +kernel
  have hsign : isNegative (Float.ofBits 2) = false := by decide +kernel
  obtain ⟨x, hspells, hreads, -, hnearest⟩ :=
    format_fewest_digits (v := Float.ofBits 2) (by decide +kernel) (by decide +kernel)
  rw [htext, hdigits, hsign] at hreads hnearest
  rw [htext, hsign] at hspells
  exact ⟨htext, hdigits, x, hspells, hreads, hnearest⟩

end Value

end Calculator
