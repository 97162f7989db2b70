import Calculator.Proofs.Bits
import Calculator.Proofs.Rounding
import Mathlib.Tactic.Ring

namespace Calculator

namespace Binary64

section Order

open Float.Model UnpackedFloat

variable {n m : Nat} {x y : UnpackedFloat} {v w : Float}

theorem isLE_then {e e' : Int} {k k' : Nat} (h : e < e' ∨ e = e' ∧ k ≤ k') :
    ((compare e e').then (compare k k')).isLE = true := by
  rcases h with h | ⟨rfl, h⟩
  · rw [compare_lt_iff_lt.mpr h]
    rfl
  · rw [compare_eq_iff_eq.mpr rfl]
    exact Nat.isLE_compare.mpr h

theorem Unpacked.le (h : Unpacked .positive n x) (h' : Unpacked .positive m y) (hnm : n ≤ m) (hm : m ≤ infinityRank) :
    x.le y = true := by
  cases h with
  | zero =>
      cases h' with
      | nan hn => exact absurd hm (Nat.not_le_of_gt hn)
      | _ => rfl
  | subnormal hpos hn =>
      cases h' with
      | zero => exact absurd hnm (Nat.not_le_of_gt hpos)
      | subnormal => exact isLE_then (.inr ⟨rfl, hnm⟩)
      | normal => exact isLE_then (by omega)
      | infinity => rfl
      | nan hn => exact absurd hm (Nat.not_le_of_gt hn)
  | @normal b f hb hf =>
      have hblock : block ≤ (b + 1) * block := Nat.le_mul_of_pos_left block (Nat.succ_pos b)
      cases h' with
      | zero =>
          unfold block at hblock hnm
          omega
      | subnormal _ hn => omega
      | @normal b' f' _ hf' =>
          unfold block at *
          exact isLE_then (by omega)
      | infinity => rfl
      | nan hn => exact absurd hm (Nat.not_le_of_gt hn)
  | infinity =>
      cases h' with
      | zero => exact absurd hnm (by decide)
      | subnormal _ hn => exact absurd (Nat.lt_of_le_of_lt hnm hn) (by decide)
      | normal hb hf => exact absurd hnm (Nat.not_le_of_gt (normal_lt hb hf))
      | infinity => rfl
      | nan hn => exact absurd hm (Nat.not_le_of_gt hn)
  | nan hn => exact absurd (Nat.lt_of_lt_of_le hn hnm) (Nat.not_lt_of_le hm)

theorem sign_eq (v : Float) :
    Sign.ofBitVec (@unpackSign .binary64 v.toBits.toBitVec) = if isNegative v then .negative else .positive := by
  have hlt : v.toBits.toNat % signBit < signBit := Nat.mod_lt _ (by decide)
  have hsigned := toNat_signed v.toBits.toBitVec
  cases hs : Sign.ofBitVec (@unpackSign .binary64 v.toBits.toBitVec) with
  | positive =>
      rw [hs] at hsigned
      have hsmall : v.toBits.toNat = 0 * signBit + v.toBits.toNat % signBit := hsigned
      have hv : isNegative v = false := decide_eq_false (by omega)
      rw [hv]
      rfl
  | negative =>
      rw [hs] at hsigned
      have hlarge : v.toBits.toNat = 1 * signBit + v.toBits.toNat % signBit := hsigned
      have hv : isNegative v = true := decide_eq_true (by omega)
      rw [hv]
      rfl

theorem le_of_rank_le (hv : isNegative v = false) (hw : isNegative w = false) (hnan : w.isNaN = false)
    (h : rank v ≤ rank w) : v ≤ w := by
  have hx := unpacked v.toBits.toBitVec
  have hy := unpacked w.toBits.toBitVec
  rw [sign_eq, hv] at hx
  rw [sign_eq, hw] at hy
  exact decide_eq_true (hx.le hy h ((isNaN_eq_false w).mp hnan))

theorem Unpacked.exponent_ge {s t : Sign} {k : Nat} {e : Int} {hpos : 0 < k}
    (h : Unpacked s n (.finite t k e hpos)) : -1074 ≤ e := by
  cases h <;> omega

theorem cast_two_pow (n : Nat) : (Nat.pow 2 n : ℚ) = 2 ^ (n : ℤ) := by
  rw [Nat.pow_eq, Nat.cast_pow, Nat.cast_ofNat, zpow_natCast]

theorem magnitude_rank {s : Sign} {k : Nat} {e : Int} {hpos : 0 < k} (h : v.toModel.unpack = .finite s k e hpos) :
    magnitude (rank v) = k * 2 ^ e := by
  have hview := unpacked v.toBits.toBitVec
  rw [show unpack .binary64 v.toBits.toBitVec = .finite s k e hpos from h] at hview
  have hshift : ((e + 1074).toNat : ℤ) = e + 1074 := Int.toNat_of_nonneg (by linarith [hview.exponent_ge])
  obtain ⟨n, hn, hone⟩ : ∃ n : Nat, (n : ℤ) = 1074 ∧ one = Nat.pow 2 n := ⟨1074, rfl, by decide +kernel⟩
  have hunits : (units (rank v) : ℚ) = k * 2 ^ (e + 1074) := by
    rw [units_rank h, Nat.cast_mul, cast_two_pow, hshift]
  rw [magnitude, hunits, hone, cast_two_pow, hn, zpow_add₀ two_ne_zero, mul_div_assoc,
    mul_div_cancel_right₀ _ (by positivity)]

theorem Unpacked.sign_eq {s t : Sign} {k : Nat} {e : Int} {hpos : 0 < k} (h : Unpacked s n (.finite t k e hpos)) :
    s = t := by
  cases h <;> rfl

theorem Unpacked.eq_zero {s t : Sign} (h : Unpacked s n (.zero t)) : n = 0 := by
  cases h
  rfl

def signed (negative : Bool) (q : ℚ) : ℚ := if negative then -q else q

/-- The exact number of a finite value, by the sign, the mantissa and the exponent in its bits. -/
def toRat (v : Float) : ℚ :=
  match v.toModel.unpack with
  | .finite .positive k e _ => k * 2 ^ e
  | .finite .negative k e _ => -(k * 2 ^ e)
  | _ => 0

theorem toRat_eq (hv : v.isFinite = true) : toRat v = signed (isNegative v) (magnitude (rank v)) := by
  have hview : Unpacked _ (rank v) v.toModel.unpack := unpacked v.toBits.toBitVec
  change v.toModel.unpack.isFinite = true at hv
  rw [sign_eq] at hview
  rw [toRat]
  cases hunpack : v.toModel.unpack with
  | notANumber | infinity =>
      rw [hunpack] at hv
      cases hv
  | zero s =>
      rw [hunpack] at hview
      rw [hview.eq_zero, magnitude_zero, signed, neg_zero, ite_self]
  | finite s k e hpos =>
      rw [magnitude_rank hunpack]
      rw [hunpack] at hview
      obtain rfl := hview.sign_eq
      cases isNegative v <;> rfl

end Order

variable {n m : Nat} {q : ℚ} {v : Float} {negative : Bool}

/-- The value is the nearest one to a number with that sign and that absolute value. Its own absolute value, that of
`toRat v` if it is finite, is `magnitude (rank v)`. The power of two that would come after the finite magnitudes counts
as one of them, and stands for infinity. Of two magnitudes that are equally near the even one is taken. -/
structure IsNearest (negative : Bool) (q : ℚ) (v : Float) : Prop where
  number : v.isNaN = false
  sign : isNegative v = negative
  nearest : ∀ n ≤ infinityRank, |q - magnitude (rank v)| ≤ |q - magnitude n|
  even : ∀ n ≤ infinityRank, n ≠ rank v → |q - magnitude n| = |q - magnitude (rank v)| → rank v % 2 = 0
  overflow : v.isInf = true ↔ 2 ^ 1024 - 2 ^ 970 ≤ q

theorem middle_of_tie (h : n < m) (htie : |q - magnitude n| = |q - magnitude m|) :
    q = (magnitude n + magnitude m) / 2 := by
  have hlt := magnitude_strictMono h
  rcases abs_eq_abs.mp htie with heq | heq
  · linarith
  · linarith

theorem succ_of_tie (h : n < m) (htie : |q - magnitude n| = |q - magnitude m|)
    (hnearest : |q - magnitude n| ≤ |q - magnitude (n + 1)|) : m = n + 1 := by
  by_contra hne
  have hlower := magnitude_strictMono (Nat.lt_succ_self n)
  have hupper := magnitude_strictMono (show n + 1 < m by omega)
  have hmiddle := middle_of_tie h htie
  have hcloser : |q - magnitude (n + 1)| < |q - magnitude n| := by
    rw [abs_of_pos (by linarith : 0 < q - magnitude n), abs_lt]
    exact ⟨by linarith, by linarith⟩
  exact hnearest.not_gt hcloser

theorem middle_before_infinity : middle (infinityRank - 1) = 2 ^ 1024 - 2 ^ 970 := by
  have hunits : units (infinityRank - 1) + 2 * 2 ^ 970 * one = 2 ^ 1024 * one := by decide +kernel
  have hone : (one : ℚ) ≠ 0 := Nat.cast_ne_zero.mpr one_pos.ne'
  have hcast := congrArg (Nat.cast : ℕ → ℚ) hunits
  simp only [Nat.cast_add, Nat.cast_mul, Nat.cast_pow, Nat.cast_ofNat] at hcast
  have hlast : magnitude (infinityRank - 1) = 2 ^ 1024 - 2 * 2 ^ 970 := by
    rw [magnitude, div_eq_iff hone, sub_mul, eq_sub_iff_add_eq, hcast]
  have hhalf (x y : ℚ) : (x - 2 * y + x) / 2 = x - y := by ring
  rw [middle, hlast, show infinityRank - 1 + 1 = infinityRank from rfl, magnitude_infinityRank, hhalf]

end Binary64

namespace Decimal

open Binary64

theorem rank_eq_infinityRank_iff (d : Decimal) : d.rank = infinityRank ↔ 2 ^ 1024 - 2 ^ 970 ≤ d.value := by
  have hodd : ¬ (infinityRank - 1) % 2 = 0 := by decide
  have hbelow := rank_le_iff d (show infinityRank - 1 < infinityRank by decide)
  have hsplit : d.rank = infinityRank ↔ ¬ d.rank ≤ infinityRank - 1 := by
    have hle := d.rank_le
    have hpos : 0 < infinityRank := by decide
    omega
  rw [hsplit, hbelow, or_iff_left fun h => hodd h.2, not_lt, middle_before_infinity]

theorem rank_even (d : Decimal) {n : Nat} (hn : n ≤ infinityRank) (hne : n ≠ d.rank)
    (htie : |d.value - magnitude n| = |d.value - magnitude d.rank|) : d.rank % 2 = 0 := by
  rcases Nat.lt_or_gt_of_ne hne with h | h
  · have hsucc : d.rank = n + 1 := succ_of_tie h htie (htie.trans_le (d.abs_sub_rank_le (h.trans_le d.rank_le)))
    have hmiddle : d.value = middle n := by rw [middle_of_tie h htie, hsucc, middle]
    have hodd := mt (rank_le_iff d (h.trans_le d.rank_le)).mpr (by omega)
    rw [not_or, not_and] at hodd
    have := hodd.2 hmiddle
    omega
  · have hsucc : n = d.rank + 1 := succ_of_tie h htie.symm (d.abs_sub_rank_le (h.trans_le hn))
    have hmiddle : d.value = middle d.rank := by rw [middle_of_tie h htie.symm, hsucc, middle]
    rcases (rank_le_iff d (h.trans_le hn)).mp le_rfl with hlt | heven
    · exact absurd hmiddle hlt.ne
    · exact heven.2

/-- The nearest value is what a decimal is rounded to, and there is no other one. -/
theorem isNearest_iff (d : Decimal) {negative : Bool} {v : Float} :
    IsNearest negative d.value v ↔ v = ofRank negative d.rank := by
  constructor
  · intro h
    have hv : Binary64.rank v ≤ infinityRank := (isNaN_eq_false v).mp h.number
    have hrank : Binary64.rank v = d.rank := by
      by_contra hne
      have htie := le_antisymm (h.nearest d.rank d.rank_le) (d.abs_sub_rank_le hv)
      have heven := h.even d.rank d.rank_le (Ne.symm hne) htie.symm
      have heven' := d.rank_even hv hne htie
      rcases Nat.lt_or_gt_of_ne hne with hlt | hlt
      · have := succ_of_tie hlt htie (h.nearest _ (hlt.trans_le d.rank_le))
        omega
      · have := succ_of_tie hlt htie.symm (d.abs_sub_rank_le (hlt.trans_le hv))
        omega
    rw [← hrank, ← h.sign, ofRank_rank hv]
  · rintro rfl
    have hrank : Binary64.rank (ofRank negative d.rank) = d.rank := rank_ofRank negative d.rank_le
    refine ⟨?_, isNegative_ofRank negative d.rank_le, ?_, ?_, ?_⟩
    · rw [isNaN_eq_false, hrank]
      exact d.rank_le
    · rw [hrank]
      exact fun n => d.abs_sub_rank_le
    · rw [hrank]
      exact fun n => d.rank_even
    · rw [isInf_iff, hrank, rank_eq_infinityRank_iff]

theorem le_of_isNearest {d e : Decimal} {v w : Float} (hv : IsNearest false d.value v) (hw : IsNearest false e.value w)
    (h : d.value ≤ e.value) : v ≤ w := by
  refine le_of_rank_le hv.sign hw.sign hw.number ?_
  rw [(isNearest_iff d).mp hv, (isNearest_iff e).mp hw, rank_ofRank false d.rank_le, rank_ofRank false e.rank_le]
  exact rank_mono h

end Decimal

end Calculator
