import Calculator.Decimal.Basic
import Mathlib.Algebra.Order.Field.Power
import Mathlib.Algebra.Order.Field.Rat
import Mathlib.Tactic.FieldSimp
import Mathlib.Tactic.Linarith
import Mathlib.Tactic.Positivity

namespace Calculator

namespace Binary64

theorem units_shift {b q : Nat} (hq : q ≤ 2 * block) (hb : b = 0 ∨ block ≤ q) :
    units (b * block + q) = q * 2 ^ b := by
  by_cases hlt : q < block
  · obtain rfl := hb.resolve_right (Nat.not_le_of_gt hlt)
    rw [Nat.zero_mul, Nat.zero_add, units_of_lt hlt, Nat.pow_zero, Nat.mul_one]
  · rcases Nat.lt_or_eq_of_le hq with hq | rfl
    · have hsplit : b * block + q = (b + 1) * block + (q - block) := by
        rw [Nat.add_mul]
        omega
      have hfull : block + (q - block) = q := by omega
      rw [hsplit, units_block b (q - block) (by omega), hfull]
      rfl
    · have hsplit : b * block + 2 * block = (b + 1 + 1) * block + 0 := by
        rw [Nat.add_mul, Nat.add_mul]
        omega
      rw [hsplit, units_block (b + 1) 0 (by decide)]
      change block * 2 ^ (b + 1) = _
      rw [Nat.pow_succ', ← Nat.mul_assoc, Nat.mul_comm block]

theorem exists_shift (n : Nat) : ∃ b q, n = b * block + q ∧ q < 2 * block ∧ (b = 0 ∨ block ≤ q) := by
  by_cases h : n < block
  · exact ⟨0, n, by omega, by omega, Or.inl rfl⟩
  · refine ⟨n / block - 1, block + n % block, ?_, ?_, Or.inr (Nat.le_add_right _ _)⟩
    · unfold block at *
      omega
    · have := Nat.mod_lt n (show 0 < block by decide)
      omega

theorem units_strictMono : StrictMono units := by
  refine strictMono_nat_of_lt_succ fun n => ?_
  obtain ⟨b, q, rfl, hq, hb⟩ := exists_shift n
  rw [units_shift (Nat.le_of_lt hq) hb, Nat.add_assoc, units_shift hq (hb.imp_right fun h => by omega)]
  exact Nat.mul_lt_mul_of_pos_right (Nat.lt_succ_self q) (Nat.two_pow_pos b)

theorem floorRank_spec (t : Nat) : units (floorRank t) ≤ t ∧ t < units (floorRank t + 1) := by
  obtain ⟨s, hs⟩ : ∃ s, s = t.log2 - 52 := ⟨_, rfl⟩
  have hpos : 0 < 2 ^ s := Nat.two_pow_pos s
  have hq : t / 2 ^ s < 2 * block := by
    rw [Nat.div_lt_iff_lt_mul hpos, show 2 * block = 2 ^ 53 from rfl, ← Nat.pow_add]
    exact Nat.lt_log2_self.trans_le (Nat.pow_le_pow_right (by decide) (by omega))
  have hb : s = 0 ∨ block ≤ t / 2 ^ s := by
    refine Nat.eq_zero_or_pos s |>.imp_right fun hlog => ?_
    have ht : t ≠ 0 := by
      rintro rfl
      rw [Nat.log2_zero] at hs
      omega
    rw [Nat.le_div_iff_mul_le hpos, show block = 2 ^ 52 from rfl, ← Nat.pow_add, ← Nat.le_log2 ht]
    omega
  have hfloor : floorRank t = s * block + t / 2 ^ s := by
    rw [hs]
    rfl
  rw [hfloor, Nat.add_assoc, units_shift (Nat.le_of_lt hq) hb, units_shift hq (hb.imp_right fun h => by omega)]
  exact ⟨Nat.div_mul_le_self t (2 ^ s), (Nat.div_lt_iff_lt_mul hpos).mp (Nat.lt_succ_self _)⟩

/-- Up to a rank lies what is nearer to it than to the next one, and the middle of the two if the rank is even. -/
theorem nearestRank_le_iff {num den n : Nat} (hden : 0 < den) (hn : n < infinityRank) :
    nearestRank num den ≤ n ↔
      2 * num < (units n + units (n + 1)) * den ∨ 2 * num = (units n + units (n + 1)) * den ∧ n % 2 = 0 := by
  obtain ⟨m, hm⟩ : ∃ m, m = floorRank (num / den) := ⟨_, rfl⟩
  obtain ⟨hle, hlt⟩ := floorRank_spec (num / den)
  rw [← hm, Nat.le_div_iff_mul_le hden] at hle
  rw [← hm, Nat.div_lt_iff_lt_mul hden] at hlt
  rw [nearestRank, ← hm, min_le_iff, or_iff_right (Nat.not_le_of_gt hn)]
  -- The quotient lies between ranks `m` and `m + 1`, so only for `n = m` does the middle matter.
  rcases lt_trichotomy n m with h | rfl | h
  · have hlower : units n < units m := units_strictMono h
    have hupper : units (n + 1) ≤ units m := units_strictMono.monotone h
    have hmiddle : (units n + units (n + 1)) * den < 2 * num := by
      calc (units n + units (n + 1)) * den < (units m + units m) * den := Nat.mul_lt_mul_of_pos_right (by omega) hden
        _ = 2 * (units m * den) := by rw [← Nat.two_mul, Nat.mul_assoc]
        _ ≤ 2 * num := Nat.mul_le_mul_left 2 hle
    refine iff_of_false ?_ (by omega)
    split <;> omega
  · by_cases hdown : 2 * num < (units n + units (n + 1)) * den ∨ 2 * num = (units n + units (n + 1)) * den ∧ n % 2 = 0
    · rw [if_pos hdown]
      exact iff_of_true le_rfl hdown
    · rw [if_neg hdown]
      exact iff_of_false (Nat.not_succ_le_self n) hdown
  · have hlower : units (m + 1) ≤ units n := units_strictMono.monotone h
    have hupper : units n < units (n + 1) := units_strictMono (Nat.lt_succ_self n)
    have hmiddle : 2 * num < (units n + units (n + 1)) * den := by
      calc 2 * num < 2 * (units (m + 1) * den) := Nat.mul_lt_mul_of_pos_left hlt (by decide)
        _ = (units (m + 1) + units (m + 1)) * den := by rw [← Nat.two_mul, Nat.mul_assoc]
        _ ≤ (units n + units (n + 1)) * den := Nat.mul_le_mul_right den (by omega)
    refine iff_of_true ?_ (Or.inl hmiddle)
    split <;> omega

/-- The exact number that has the rank `n`; at `infinityRank`, `2 ^ 1024`. -/
def magnitude (n : Nat) : ℚ := units n / one

def middle (n : Nat) : ℚ := (magnitude n + magnitude (n + 1)) / 2

theorem one_pos : 0 < one := by decide +kernel

theorem magnitude_strictMono : StrictMono magnitude := fun _ _ h =>
  div_lt_div_of_pos_right (Nat.cast_lt.mpr (units_strictMono h)) (Nat.cast_pos.mpr one_pos)

theorem magnitude_zero : magnitude 0 = 0 := by
  rw [magnitude, units_of_lt (by decide), Nat.cast_zero, zero_div]

theorem magnitude_nonneg (n : Nat) : 0 ≤ magnitude n := by
  rw [magnitude]
  positivity

theorem magnitude_lt_middle (n : Nat) : magnitude n < middle n := by
  have h := magnitude_strictMono (Nat.lt_succ_self n)
  rw [middle]
  linarith

theorem middle_lt_magnitude {n m : Nat} (h : n < m) : middle n < magnitude m := by
  have hnext := magnitude_strictMono (Nat.lt_succ_self n)
  have hle := magnitude_strictMono.monotone (Nat.succ_le_of_lt h)
  rw [middle]
  linarith

theorem middle_strictMono : StrictMono middle :=
  strictMono_nat_of_lt_succ fun n => (middle_lt_magnitude (Nat.lt_succ_self n)).trans (magnitude_lt_middle _)

theorem magnitude_infinityRank : magnitude infinityRank = 2 ^ 1024 := by
  have hunits : units infinityRank = 2 ^ 1024 * one := by decide +kernel
  rw [magnitude, hunits, Nat.cast_mul, mul_div_cancel_right₀ _ (Nat.cast_ne_zero.mpr one_pos.ne'), Nat.cast_pow, Nat.cast_two]

end Binary64

namespace Decimal

open Binary64

def value (d : Decimal) : ℚ := d.digits * 10 ^ d.exponent

theorem value_zeros (m k : Nat) (e : Int) : value ⟨10 ^ m * k, e⟩ = value ⟨k, e + m⟩ := by
  change ((10 ^ m * k : Nat) : ℚ) * 10 ^ e = k * 10 ^ (e + m)
  rw [zpow_add₀ (by norm_num), zpow_natCast, Nat.cast_mul, Nat.cast_pow, Nat.cast_ofNat, mul_comm _ (k : ℚ),
    mul_assoc, mul_comm ((10 : ℚ) ^ m)]

theorem value_eq_div (d : Decimal) : d.value = d.numerator / d.denominator := by
  obtain ⟨k, h | h⟩ := d.exponent.eq_nat_or_neg
  · rw [value, numerator, denominator, h, zpow_natCast]
    simp
  · rw [value, numerator, denominator, h, zpow_neg, zpow_natCast, ← div_eq_mul_inv]
    simp

theorem denominator_pos (d : Decimal) : 0 < d.denominator := Nat.pow_pos (by decide)

theorem exists_scale (d : Decimal) (n : Nat) :
    ∃ k : ℚ, 0 < k ∧ d.value * k = (2 * (d.numerator * one) : Nat) ∧
      middle n * k = ((units n + units (n + 1)) * d.denominator : Nat) := by
  have hden : (0 : ℚ) < d.denominator := Nat.cast_pos.mpr d.denominator_pos
  have hone : (0 : ℚ) < one := Nat.cast_pos.mpr Binary64.one_pos
  refine ⟨2 * (one * d.denominator), mul_pos two_pos (mul_pos hone hden), ?_, ?_⟩
  · rw [value_eq_div]
    push_cast
    field_simp
  · rw [middle, magnitude, magnitude]
    push_cast
    field_simp

theorem value_lt_middle (d : Decimal) (n : Nat) :
    d.value < middle n ↔ 2 * (d.numerator * one) < (units n + units (n + 1)) * d.denominator := by
  obtain ⟨k, hk, hvalue, hmiddle⟩ := exists_scale d n
  rw [← mul_lt_mul_iff_of_pos_right hk, hvalue, hmiddle, Nat.cast_lt]

theorem value_eq_middle (d : Decimal) (n : Nat) :
    d.value = middle n ↔ 2 * (d.numerator * one) = (units n + units (n + 1)) * d.denominator := by
  obtain ⟨k, hk, hvalue, hmiddle⟩ := exists_scale d n
  rw [← mul_left_inj' hk.ne', hvalue, hmiddle, Nat.cast_inj]

theorem value_le_magnitude (d : Decimal) (n : Nat) :
    d.value ≤ magnitude n ↔ d.numerator * one ≤ units n * d.denominator := by
  have hden : (0 : ℚ) < d.denominator := Nat.cast_pos.mpr d.denominator_pos
  rw [value_eq_div, magnitude, div_le_div_iff₀ hden (Nat.cast_pos.mpr Binary64.one_pos)]
  exact_mod_cast Iff.rfl

theorem middle_lt_of_exponent {d : Decimal} {n : Nat} (hn : n < infinityRank) (hd : d.digits ≠ 0)
    (he : 308 < d.exponent) : middle n < d.value := by
  have hdigits : (1 : ℚ) ≤ d.digits := Nat.one_le_cast.mpr (Nat.pos_of_ne_zero hd)
  have hpow : 2 ^ 1024 < 10 ^ 309 := by decide +kernel
  calc middle n < magnitude infinityRank := middle_lt_magnitude hn
    _ = 2 ^ 1024 := magnitude_infinityRank
    _ < 10 ^ (309 : ℤ) := by exact_mod_cast hpow
    _ ≤ 10 ^ d.exponent := zpow_le_zpow_right₀ (by norm_num) he
    _ ≤ d.value := le_mul_of_one_le_left (by positivity) hdigits

theorem value_lt_middle_of_exponent {d : Decimal} (n : Nat) (he : d.exponent + d.digits.log2 + 1 ≤ -324) :
    d.value < middle n := by
  have hdigits : (d.digits : ℚ) < 10 ^ ((d.digits.log2 : ℤ) + 1) := by
    have h : d.digits < 10 ^ (d.digits.log2 + 1) :=
      Nat.lt_log2_self.trans_le (Nat.pow_le_pow_left (by decide) _)
    exact_mod_cast h
  have hmiddle : (10 : ℚ) ^ (-324 : ℤ) < middle 0 := by
    have h := (value_lt_middle ⟨1, -324⟩ 0).mpr (by decide +kernel)
    rwa [value, Nat.cast_one, one_mul] at h
  calc d.value < 10 ^ ((d.digits.log2 : ℤ) + 1) * 10 ^ d.exponent := mul_lt_mul_of_pos_right hdigits (by positivity)
    _ = 10 ^ (d.exponent + d.digits.log2 + 1) := by
        rw [← zpow_add₀ (by norm_num), add_comm, add_assoc]
    _ ≤ 10 ^ (-324 : ℤ) := zpow_le_zpow_right₀ (by norm_num) he
    _ < middle 0 := hmiddle
    _ ≤ middle n := middle_strictMono.monotone (Nat.zero_le n)

/-- A decimal is rounded to the nearest magnitude, and from the middle of two to the one of even rank. -/
theorem rank_le_iff (d : Decimal) {n : Nat} (hn : n < infinityRank) :
    d.rank ≤ n ↔ d.value < middle n ∨ d.value = middle n ∧ n % 2 = 0 := by
  rw [rank]
  split_ifs with hzero hlarge hsmall
  · have h : d.value < middle n := by
      rw [value, hzero, Nat.cast_zero, zero_mul]
      exact (magnitude_nonneg n).trans_lt (magnitude_lt_middle n)
    exact iff_of_true (Nat.zero_le n) (Or.inl h)
  · have h := middle_lt_of_exponent hn hzero hlarge
    exact iff_of_false (Nat.not_le_of_gt hn) (not_or.mpr ⟨h.not_gt, fun h' => h.ne' h'.1⟩)
  · exact iff_of_true (Nat.zero_le n) (Or.inl (value_lt_middle_of_exponent n hsmall))
  · rw [nearestRank_le_iff d.denominator_pos hn, value_lt_middle, value_eq_middle]

theorem rank_le (d : Decimal) : d.rank ≤ infinityRank := by
  rw [rank]
  split_ifs
  · exact Nat.zero_le _
  · exact le_rfl
  · exact Nat.zero_le _
  · exact nearestRank_le _ _

theorem rank_mono {d e : Decimal} (h : d.value ≤ e.value) : d.rank ≤ e.rank := by
  rcases e.rank_le.lt_or_eq with he | he
  · rw [rank_le_iff d he]
    rcases (rank_le_iff e he).mp le_rfl with hlt | ⟨heq, heven⟩
    · exact Or.inl (h.trans_lt hlt)
    · exact (h.trans_eq heq).lt_or_eq.imp_right fun heq => ⟨heq, heven⟩
  · exact he ▸ d.rank_le

theorem rank_congr {d e : Decimal} (h : d.value = e.value) : d.rank = e.rank :=
  le_antisymm (rank_mono h.le) (rank_mono h.ge)

theorem rank_le_of_value_le {d : Decimal} {n : Nat} (h : d.value ≤ magnitude n) : d.rank ≤ n := by
  rcases lt_or_ge n infinityRank with hn | hn
  · exact (rank_le_iff d hn).mpr (Or.inl (h.trans_lt (magnitude_lt_middle n)))
  · exact d.rank_le.trans hn

theorem value_le_middle {d : Decimal} {n : Nat} (hn : n < infinityRank) (h : d.rank ≤ n) : d.value ≤ middle n :=
  ((rank_le_iff d hn).mp h).elim le_of_lt fun heq => heq.1.le

theorem middle_le_value {d : Decimal} {n : Nat} (h : n < d.rank) : middle n ≤ d.value :=
  le_of_not_gt fun hlt => h.not_ge ((rank_le_iff d (h.trans_le d.rank_le)).mpr (Or.inl hlt))

theorem le_rank_of_le_value {d : Decimal} {n : Nat} (hn : n ≤ infinityRank) (h : magnitude n ≤ d.value) :
    n ≤ d.rank :=
  Nat.le_of_not_lt fun hlt =>
    ((middle_lt_magnitude hlt).trans_le h).not_ge (value_le_middle (hlt.trans_le hn) le_rfl)

theorem rank_of_value_eq {d : Decimal} {n : Nat} (hn : n ≤ infinityRank) (h : d.value = magnitude n) : d.rank = n :=
  le_antisymm (rank_le_of_value_le h.le) (le_rank_of_le_value hn h.ge)

theorem abs_sub_rank_le (d : Decimal) {n : Nat} (hn : n ≤ infinityRank) :
    |d.value - magnitude d.rank| ≤ |d.value - magnitude n| := by
  rcases lt_trichotomy n d.rank with h | rfl | h
  · obtain ⟨m, hm⟩ : ∃ m, d.rank = m + 1 := Nat.exists_eq_succ_of_ne_zero (Nat.ne_zero_of_lt h)
    have hmiddle : middle m ≤ d.value := middle_le_value (by omega)
    have hlower : magnitude n ≤ magnitude m := magnitude_strictMono.monotone (by omega)
    have hstep := magnitude_strictMono (Nat.lt_succ_self m)
    rw [middle] at hmiddle
    rw [hm]
    exact (abs_le.mpr ⟨by linarith, by linarith⟩).trans (le_abs_self _)
  · exact le_rfl
  · have hmiddle : d.value ≤ middle d.rank := value_le_middle (h.trans_le hn) le_rfl
    have hupper : magnitude (d.rank + 1) ≤ magnitude n := magnitude_strictMono.monotone h
    have hstep := magnitude_strictMono (Nat.lt_succ_self d.rank)
    rw [middle] at hmiddle
    rw [abs_sub_comm d.value (magnitude n)]
    exact (abs_le.mpr ⟨by linarith, by linarith⟩).trans (le_abs_self _)

end Decimal

end Calculator
