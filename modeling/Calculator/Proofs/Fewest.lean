import Calculator.Proofs.Numerals
import Calculator.Proofs.Shortest
import Mathlib.Tactic.Ring

namespace Calculator

namespace Binary64

theorem magnitude_succ_le {k n : Nat} (hk : k ≤ n) (hblock : k ≤ block) :
    k * magnitude (n + 1) ≤ (k + 1) * magnitude n := by
  obtain ⟨b, q, rfl, hq, hb⟩ := exists_shift n
  have hkq : k ≤ q := by
    rcases hb with rfl | hb
    · omega
    · exact hblock.trans hb
  have hunits : k * units (b * block + q + 1) ≤ (k + 1) * units (b * block + q) := by
    rw [units_shift hq.le hb, Nat.add_assoc, units_shift hq (hb.imp_right fun h => by omega)]
    calc k * ((q + 1) * 2 ^ b) = (k * q + k) * 2 ^ b := by rw [← Nat.mul_assoc, Nat.mul_succ]
      _ ≤ (k * q + q) * 2 ^ b := Nat.mul_le_mul_right _ (Nat.add_le_add_left hkq _)
      _ = (k + 1) * (q * 2 ^ b) := by rw [← Nat.mul_assoc, Nat.succ_mul]
  rw [magnitude, magnitude, ← mul_div_assoc, ← mul_div_assoc]
  refine div_le_div_of_nonneg_right ?_ (Nat.cast_nonneg one)
  exact_mod_cast hunits

end Binary64

namespace Decimal

open Binary64

variable {n m k : Nat} {e : Int} {d : Decimal}

theorem value_one (e : Int) : value ⟨1, e⟩ = 10 ^ e := by rw [value, Nat.cast_one, one_mul]

theorem value_le_pow {x : Int} (hm : m < 10 ^ k) (hx : k + e ≤ x) : value ⟨m, e⟩ ≤ 10 ^ x := by
  have hdigits : (m : ℚ) ≤ 10 ^ k := by exact_mod_cast hm.le
  calc value ⟨m, e⟩ ≤ 10 ^ k * 10 ^ e := mul_le_mul_of_nonneg_right hdigits (by positivity)
    _ = 10 ^ (k + e) := by rw [zpow_add₀ (by norm_num), zpow_natCast]
    _ ≤ 10 ^ x := zpow_le_zpow_right₀ (by norm_num) hx

theorem value_le_nine_tenths {x : Int} (hm : m < 10) (he : e < x) : value ⟨m, e⟩ ≤ 9 / 10 * 10 ^ x := by
  calc value ⟨m, e⟩ ≤ value ⟨9, e⟩ := value_mono (Nat.le_of_lt_succ hm) e
    _ = 9 / 10 * 10 ^ (e + 1) := by
        rw [zpow_add_one₀ (by norm_num), value]
        push_cast
        ring
    _ ≤ 9 / 10 * 10 ^ x := mul_le_mul_of_nonneg_left (zpow_le_zpow_right₀ (by norm_num) he) (by norm_num)

theorem ne_zero_of_rank (hpos : n ≠ 0) (hrank : rank ⟨m, e⟩ = n) : m ≠ 0 := by
  rintro rfl
  exact hpos (hrank.symm.trans (if_pos rfl))

theorem rank_between {a b c : Decimal} (hab : a.value ≤ b.value) (hbc : b.value ≤ c.value) (ha : a.rank = n)
    (hc : c.rank = n) : b.rank = n :=
  le_antisymm ((rank_mono hbc).trans_eq hc) (ha.symm.trans_le (rank_mono hab))

section Grid

theorem exists_gridScale (n : Nat) (e : Int) :
    ∃ s : ℚ, 0 < s ∧ (∀ j, value ⟨j, e⟩ * s = (j * (one * Nat.pow 10 e.toNat) : Nat)) ∧
      magnitude n * s = (units n * Nat.pow 10 (-e).toNat : Nat) := by
  have hden : (0 : ℚ) < (Nat.pow 10 (-e).toNat : Nat) := Nat.cast_pos.mpr (Nat.pow_pos (by decide))
  have hone : (0 : ℚ) < one := Nat.cast_pos.mpr Binary64.one_pos
  refine ⟨one * (Nat.pow 10 (-e).toNat : Nat), mul_pos hone hden, fun j => ?_, ?_⟩
  · rw [value_eq_div, numerator, denominator]
    push_cast
    field_simp
  · rw [magnitude]
    push_cast
    field_simp

theorem upper_nearer_iff (n : Nat) (e : Int) :
    one * Nat.pow 10 e.toNat ≤ 2 * (units n * Nat.pow 10 (-e).toNat % (one * Nat.pow 10 e.toNat)) ↔
      value ⟨gridFloor n e + 1, e⟩ - magnitude n ≤ magnitude n - value ⟨gridFloor n e, e⟩ := by
  obtain ⟨s, hs, hvalue, hmagnitude⟩ := exists_gridScale n e
  have hdivide := Nat.div_add_mod' (units n * Nat.pow 10 (-e).toNat) (one * Nat.pow 10 e.toNat)
  rw [← gridFloor] at hdivide
  rw [← mul_le_mul_iff_of_pos_right hs, sub_mul, sub_mul, hvalue, hvalue, hmagnitude, sub_le_sub_iff,
    ← Nat.cast_add, ← Nat.cast_add, Nat.cast_le, Nat.succ_mul (gridFloor n e)]
  omega

theorem onGrid?_nearer (h : onGrid? n e = some d) {j : Nat} (hj : j = gridFloor n e ∨ j = gridFloor n e + 1)
    (hrank : rank ⟨j, e⟩ = n) : |d.value - magnitude n| ≤ |value ⟨j, e⟩ - magnitude n| := by
  have hlow := gridFloor_le n e
  have hhigh := lt_gridFloor n e
  have hcompare := upper_nearer_iff n e
  have hlower : |value ⟨gridFloor n e, e⟩ - magnitude n| = magnitude n - value ⟨gridFloor n e, e⟩ := by
    rw [abs_sub_comm, abs_of_nonneg (sub_nonneg.mpr hlow)]
  have hupper : |value ⟨gridFloor n e + 1, e⟩ - magnitude n| = value ⟨gridFloor n e + 1, e⟩ - magnitude n :=
    abs_of_pos (sub_pos.mpr hhigh)
  rw [onGrid?_eq] at h
  split_ifs at h with hl hboth hu
  · cases h
    rcases hj with rfl | rfl
    · rw [hlower, hupper]
      exact hcompare.mp hboth.2
    · exact le_rfl
  · cases h
    rcases hj with rfl | rfl
    · exact le_rfl
    · rw [hlower, hupper]
      exact (lt_of_not_ge fun hle => hboth ⟨hrank, hcompare.mpr hle⟩).le
  · cases h
    rcases hj with rfl | rfl
    · exact absurd hrank hl
    · exact le_rfl

theorem onGrid?_nearest (h : onGrid? n e = some d) (hrank : rank ⟨k, e⟩ = n) :
    |d.value - magnitude n| ≤ |value ⟨k, e⟩ - magnitude n| := by
  have hlow := gridFloor_le n e
  have hhigh := lt_gridFloor n e
  have hn : n ≤ infinityRank := hrank ▸ rank_le _
  rcases Nat.lt_or_ge (gridFloor n e) k with hlt | hle
  · have hvalue : value ⟨gridFloor n e + 1, e⟩ ≤ value ⟨k, e⟩ := value_mono hlt e
    have hupper : rank ⟨gridFloor n e + 1, e⟩ = n :=
      le_antisymm ((rank_mono hvalue).trans_eq hrank) (le_rank_of_le_value hn hhigh.le)
    refine (onGrid?_nearer h (Or.inr rfl) hupper).trans ?_
    rw [abs_of_pos (by linarith), abs_of_pos (by linarith)]
    linarith
  · have hvalue : value ⟨k, e⟩ ≤ value ⟨gridFloor n e, e⟩ := value_mono hle e
    have hlower : rank ⟨gridFloor n e, e⟩ = n :=
      le_antisymm (rank_le_of_value_le hlow) (hrank.symm.trans_le (rank_mono hvalue))
    refine (onGrid?_nearer h (Or.inl rfl) hlower).trans ?_
    rw [abs_of_nonpos (by linarith), abs_of_nonpos (by linarith)]
    linarith

theorem searchFrom_nearest (g : Nat) (hrank : rank ⟨k, (searchFrom n g).exponent⟩ = n) :
    |(searchFrom n g).value - magnitude n| ≤ |value ⟨k, (searchFrom n g).exponent⟩ - magnitude n| := by
  induction g with
  | zero =>
      rw [value_last, sub_self, abs_zero]
      exact abs_nonneg _
  | succ g ih =>
      rw [searchFrom] at hrank ⊢
      cases hgrid : onGrid? n (g + 1 - 1074) with
      | none =>
          rw [hgrid] at hrank
          exact ih hrank
      | some d =>
          obtain ⟨-, hexponent, -⟩ := onGrid?_eq_some hgrid
          rw [hgrid, Option.getD_some, hexponent] at hrank
          rw [Option.getD_some, hexponent]
          exact onGrid?_nearest hgrid hrank

end Grid

section Shortest

theorem shortest_nearest_onGrid (hpos : n ≠ 0) (hrank : rank ⟨k, (shortest n).exponent⟩ = n) :
    |(shortest n).value - magnitude n| ≤ |value ⟨k, (shortest n).exponent⟩ - magnitude n| := by
  rw [shortest, if_neg hpos] at hrank ⊢
  exact searchFrom_nearest _ hrank

/-- A power of ten is not much greater than the magnitude that it stands for. Only the least magnitudes are so far
apart that this has to be looked up. -/
theorem magnitude_near_one (hn : n < infinityRank) (hdigits : (shortest n).digits = 1) :
    95 / 100 * (shortest n).value ≤ magnitude n := by
  by_cases hsmall : n < 10
  · have htable : ∀ i < 10, (shortest i).digits = 1 → numerator ⟨95, (shortest i).exponent - 2⟩ * one ≤
        units i * denominator ⟨95, (shortest i).exponent - 2⟩ := by decide +kernel
    have hvalue := (value_le_magnitude _ _).mpr (htable n hsmall hdigits)
    rw [← Nat.cast_two, Numeral.value_point] at hvalue
    rw [value, hdigits]
    norm_num at hvalue ⊢
    exact hvalue
  · have hle : (shortest n).value ≤ middle n := value_le_middle hn (rank_shortest hn).le
    have hsucc := magnitude_succ_le (Nat.le_of_not_lt hsmall) (by decide)
    have hnonneg := magnitude_nonneg n
    rw [middle] at hle
    push_cast at hsucc
    linarith

variable (hpos : n ≠ 0) (hn : n < infinityRank)
include hpos hn

/-- The search leaves no coarser grid out, since it starts above the magnitude. -/
theorem exponent_le_shortest (hrank : rank ⟨m, e⟩ = n) : e ≤ (shortest n).exponent := by
  have hm : m ≠ 0 := ne_zero_of_rank hpos hrank
  have hsucc := magnitude_succ_le (Nat.one_le_iff_ne_zero.mpr hpos) (by decide)
  have hstart : (10 : ℚ) ^ e < 10 ^ (ceiling (units n) + 1) := by
    calc (10 : ℚ) ^ e ≤ value ⟨m, e⟩ :=
          le_mul_of_one_le_left (by positivity) (Nat.one_le_cast.mpr (Nat.pos_of_ne_zero hm))
      _ ≤ middle n := value_le_middle hn hrank.le
      _ < 10 * magnitude n := by
          have hlt : 0 < magnitude n := magnitude_zero ▸ magnitude_strictMono (Nat.pos_of_ne_zero hpos)
          rw [Nat.cast_one, one_mul] at hsucc
          rw [middle]
          linarith
      _ ≤ 10 * 10 ^ ceiling (units n) := mul_le_mul_of_nonneg_left (magnitude_le_ceiling hpos) (by norm_num)
      _ = 10 ^ (ceiling (units n) + 1) := by rw [zpow_add_one₀ (by norm_num), mul_comm]
  have htop : e ≤ ceiling (units n) :=
    Int.le_of_lt_add_one ((zpow_lt_zpow_iff_right₀ (by norm_num)).mp hstart)
  exact Int.not_lt.mp fun hlt => (found_shortest hpos hn).coarser m e hlt htop hrank

theorem leading_le_shortest : 10 ^ ((shortest n).order - 1) ≤ (shortest n).value :=
  (lt_order_iff (digits_shortest_ne_zero hpos hn) _).mp (by omega)

/-- A decimal below the leading power of ten puts this power into the interval, so it is on the grid of the shortest
decimal, which has one digit only. -/
theorem rank_leading (hrank : rank ⟨m, e⟩ = n) (hle : value ⟨m, e⟩ ≤ 10 ^ ((shortest n).order - 1)) :
    rank ⟨1, (shortest n).order - 1⟩ = n ∧ (Nat.toDigits 10 (shortest n).digits).length ≤ 1 := by
  have hleading : rank ⟨1, (shortest n).order - 1⟩ = n := by
    refine rank_between ?_ ?_ hrank (rank_shortest hn)
    · rwa [value_one]
    · rw [value_one]
      exact leading_le_shortest hpos hn
  have hexponent := exponent_le_shortest hpos hn hleading
  rw [order] at hexponent
  exact ⟨hleading, by omega⟩

/-- No decimal with fewer digits is rounded to the magnitude. -/
theorem length_shortest_le (hm : m < 10 ^ k) (hrank : rank ⟨m, e⟩ = n) :
    (Nat.toDigits 10 (shortest n).digits).length ≤ k := by
  refine Nat.le_of_not_lt fun hlt => ?_
  have hexponent := exponent_le_shortest hpos hn hrank
  have hplace : k + e ≤ (shortest n).order - 1 := by
    rw [order]
    omega
  obtain ⟨-, hlength⟩ := rank_leading hpos hn hrank (value_le_pow hm hplace)
  obtain rfl : k = 0 := by omega
  exact ne_zero_of_rank hpos hrank (Nat.lt_one_iff.mp hm)

theorem digits_shortest_of_lt (hlt : magnitude n < 10 ^ (shortest n).exponent) : (shortest n).digits = 1 := by
  have hfloor : gridFloor n (shortest n).exponent < 1 := by
    refine Nat.lt_of_not_le fun hge => ?_
    have hvalue := (value_mono hge (shortest n).exponent).trans (gridFloor_le n _)
    exact hlt.not_ge ((value_one _).symm.trans_le hvalue)
  have hle := (found_shortest hpos hn).digits_le
  have hne := digits_shortest_ne_zero hpos hn
  omega

theorem shortest_nearest_finer (hm : m < 10 ^ (Nat.toDigits 10 (shortest n).digits).length) (hrank : rank ⟨m, e⟩ = n)
    (hlt : e < (shortest n).exponent) : |(shortest n).value - magnitude n| ≤ |value ⟨m, e⟩ - magnitude n| := by
  have hplace : (Nat.toDigits 10 (shortest n).digits).length + e ≤ (shortest n).order - 1 := by
    rw [order]
    omega
  have hbelow := value_le_pow hm hplace
  obtain ⟨hleading, hlength⟩ := rank_leading hpos hn hrank hbelow
  have hone : (Nat.toDigits 10 (shortest n).digits).length = 1 := le_antisymm hlength Nat.length_toDigits_pos
  have horder : (shortest n).order - 1 = (shortest n).exponent := by
    rw [order]
    omega
  rw [horder] at hleading hbelow
  have hpower := shortest_nearest_onGrid hpos hleading
  rw [value_one] at hpower
  refine hpower.trans ?_
  rcases le_or_gt (10 ^ (shortest n).exponent) (magnitude n) with hle | hgt
  · rw [abs_of_nonpos (by linarith), abs_of_nonpos (by linarith)]
    linarith
  · have hdigits := digits_shortest_of_lt hpos hn hgt
    have hnear := magnitude_near_one hn hdigits
    rw [value, hdigits, Nat.cast_one, one_mul] at hnear
    rw [hone, pow_one] at hm
    have hnine := value_le_nine_tenths hm hlt
    have hgrid : (0 : ℚ) < 10 ^ (shortest n).exponent := by positivity
    rw [abs_of_pos (by linarith), abs_of_nonpos (by linarith)]
    linarith

/-- No decimal with as many digits is nearer. -/
theorem shortest_nearest (hm : m < 10 ^ (Nat.toDigits 10 (shortest n).digits).length) (hrank : rank ⟨m, e⟩ = n) :
    |(shortest n).value - magnitude n| ≤ |value ⟨m, e⟩ - magnitude n| := by
  rcases (exponent_le_shortest hpos hn hrank).lt_or_eq with hlt | rfl
  · exact shortest_nearest_finer hpos hn hm hrank hlt
  · exact shortest_nearest_onGrid hpos hrank

end Shortest

end Decimal

end Calculator
