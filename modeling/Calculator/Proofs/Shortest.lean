import Calculator.Decimal.Shortest
import Calculator.Proofs.Rounding

namespace Calculator.Decimal

open Binary64

/-- How often `10 ^ e` goes into the magnitude of rank `n`. -/
def gridFloor (n : Nat) (e : Int) : Nat := units n * Nat.pow 10 (-e).toNat / (one * Nat.pow 10 e.toNat)

theorem gridFloor_le (n : Nat) (e : Int) : value ⟨gridFloor n e, e⟩ ≤ magnitude n := by
  rw [value_le_magnitude]
  calc gridFloor n e * Nat.pow 10 e.toNat * one = gridFloor n e * (one * Nat.pow 10 e.toNat) := by
        rw [Nat.mul_assoc, Nat.mul_comm one]
    _ ≤ units n * Nat.pow 10 (-e).toNat := Nat.div_mul_le_self _ _

theorem lt_gridFloor (n : Nat) (e : Int) : magnitude n < value ⟨gridFloor n e + 1, e⟩ := by
  have hpos : 0 < one * Nat.pow 10 e.toNat := Nat.mul_pos Binary64.one_pos (Nat.pow_pos (by decide))
  rw [← not_le, value_le_magnitude, not_le]
  calc units n * Nat.pow 10 (-e).toNat < (gridFloor n e + 1) * (one * Nat.pow 10 e.toNat) :=
        (Nat.div_lt_iff_lt_mul hpos).mp (Nat.lt_succ_self _)
    _ = (gridFloor n e + 1) * Nat.pow 10 e.toNat * one := by rw [Nat.mul_assoc, Nat.mul_comm one]

theorem value_mono {j k : Nat} (h : j ≤ k) (e : Int) : value ⟨j, e⟩ ≤ value ⟨k, e⟩ :=
  mul_le_mul_of_nonneg_right (Nat.cast_le.mpr h) (by positivity)

theorem onGrid?_eq (n : Nat) (e : Int) :
    onGrid? n e =
      if rank ⟨gridFloor n e, e⟩ = n then
        if rank ⟨gridFloor n e + 1, e⟩ = n ∧ one * Nat.pow 10 e.toNat ≤
            2 * (units n * Nat.pow 10 (-e).toNat % (one * Nat.pow 10 e.toNat)) then some ⟨gridFloor n e + 1, e⟩
        else some ⟨gridFloor n e, e⟩
      else if rank ⟨gridFloor n e + 1, e⟩ = n then some ⟨gridFloor n e + 1, e⟩
      else none := rfl

theorem onGrid?_eq_some {n : Nat} {e : Int} {d : Decimal} (h : onGrid? n e = some d) :
    d.rank = n ∧ d.exponent = e ∧ d.digits ≤ gridFloor n e + 1 := by
  rw [onGrid?_eq] at h
  split_ifs at h with hlower hboth hupper
  · cases h
    exact ⟨hboth.1, rfl, le_rfl⟩
  · cases h
    exact ⟨hlower, rfl, Nat.le_succ _⟩
  · cases h
    exact ⟨hupper, rfl, le_rfl⟩

theorem rank_ne_of_onGrid? {n : Nat} {e : Int} (h : onGrid? n e = none) (k : Nat) : rank ⟨k, e⟩ ≠ n := by
  rintro hk
  rw [onGrid?_eq] at h
  split_ifs at h with hlower hboth hupper
  have hn : n ≤ infinityRank := hk ▸ rank_le _
  rcases Nat.lt_or_ge (gridFloor n e) k with hlt | hle
  · refine hupper (le_antisymm ?_ (le_rank_of_le_value hn (lt_gridFloor n e).le))
    exact (rank_mono (value_mono hlt e)).trans_eq hk
  · refine hlower (le_antisymm (rank_le_of_value_le (gridFloor_le n e)) ?_)
    exact hk.symm.trans_le (rank_mono (value_mono hle e))

/-- What the search of the grids up to `10 ^ top` finds. -/
structure Found (n : Nat) (top : Int) (d : Decimal) : Prop where
  rank : d.rank = n
  le_top : d.exponent ≤ top
  digits_le : d.digits ≤ gridFloor n d.exponent + 1
  coarser : ∀ k e, d.exponent < e → e ≤ top → Decimal.rank ⟨k, e⟩ ≠ n

theorem value_eq_magnitude {a : Nat} {e : Int} (he : e ≤ 0) (ha : a * one = Nat.pow 10 (-e).toNat) (n : Nat) :
    value ⟨units n * a, e⟩ = magnitude n := by
  have hone : (one : ℚ) ≠ 0 := Nat.cast_ne_zero.mpr Binary64.one_pos.ne'
  have hden : ((Nat.pow 10 (-e).toNat : Nat) : ℚ) ≠ 0 := Nat.cast_ne_zero.mpr (Nat.pow_pos (by decide)).ne'
  rw [value_eq_div, numerator, denominator, Int.toNat_of_nonpos he, magnitude, div_eq_div_iff hden hone, ← ha]
  change ((units n * a * 1 : Nat) : ℚ) * one = _
  rw [Nat.mul_one, Nat.cast_mul, Nat.cast_mul, mul_assoc]

theorem value_last (n : Nat) : value (searchFrom n 0) = magnitude n :=
  value_eq_magnitude (by decide) (by decide +kernel) n

theorem found_searchFrom {n : Nat} (hn : n < infinityRank) (g : Nat) : Found n (g - 1074) (searchFrom n g) := by
  induction g with
  | zero =>
      refine ⟨rank_of_value_eq hn.le (value_last n), le_rfl, ?_, fun k e hlt hle => absurd hle (not_le.mpr hlt)⟩
      refine Nat.le_of_not_lt fun hlt => ?_
      have h : magnitude n < value (searchFrom n 0) := (lt_gridFloor n (-1074)).trans_le (value_mono hlt.le _)
      exact h.ne' (value_last n)
  | succ g ih =>
      have htop : ((g + 1 : Nat) : Int) - 1074 = g + 1 - 1074 := by omega
      rw [searchFrom, htop]
      cases hgrid : onGrid? n (g + 1 - 1074) with
      | some d =>
          obtain ⟨hrank, hexponent, hdigits⟩ := onGrid?_eq_some hgrid
          rw [← hexponent] at hdigits ⊢
          exact ⟨hrank, le_rfl, hdigits, fun k e hlt hle => absurd hle (not_le.mpr hlt)⟩
      | none =>
          refine ⟨ih.rank, ih.le_top.trans (by omega), ih.digits_le, fun k e hlt hle => ?_⟩
          rcases hle.lt_or_eq with hle | rfl
          · exact ih.coarser k e hlt (by omega)
          · exact rank_ne_of_onGrid? hgrid k

theorem length_toDigits {m : Nat} (hm : m ≠ 0) :
    10 ^ ((Nat.toDigits 10 m).length - 1) ≤ m ∧ m < 10 ^ (Nat.toDigits 10 m).length := by
  have hpos : 0 < (Nat.toDigits 10 m).length := Nat.length_toDigits_pos
  refine ⟨?_, (Nat.length_toDigits_le_iff (by decide) hpos).mp le_rfl⟩
  rcases Nat.eq_zero_or_pos ((Nat.toDigits 10 m).length - 1) with h | h
  · rw [h]
    exact Nat.pos_of_ne_zero hm
  · refine Nat.le_of_not_lt fun hlt => ?_
    have := (Nat.length_toDigits_le_iff (by decide) h).mpr hlt
    omega

theorem units_ne_zero {n : Nat} (hn : n ≠ 0) : units n ≠ 0 :=
  Nat.ne_zero_of_lt (units_strictMono (Nat.pos_of_ne_zero hn))

theorem lt_ceiling (u : Nat) : -1074 < ceiling u := by
  rw [ceiling]
  split_ifs
  · omega
  · have hlt : one / u < 10 ^ 1074 := (Nat.div_le_self one u).trans_lt (by decide +kernel)
    have := (Nat.length_toDigits_le_iff (by decide) (by decide)).mpr hlt
    omega

theorem magnitude_le_ceiling {n : Nat} (hn : n ≠ 0) : magnitude n ≤ 10 ^ ceiling (units n) := by
  have hone : (0 : ℚ) < one := Nat.cast_pos.mpr Binary64.one_pos
  rw [ceiling, magnitude, div_le_iff₀ hone]
  split_ifs with h
  · have hne : units n / one ≠ 0 := (Nat.div_pos h Binary64.one_pos).ne'
    have hlt := (Nat.div_lt_iff_lt_mul Binary64.one_pos).mp (length_toDigits hne).2
    rw [zpow_natCast]
    exact_mod_cast hlt.le
  · have hpos := Nat.pos_of_ne_zero (units_ne_zero hn)
    have hne : one / units n ≠ 0 := (Nat.div_pos (Nat.le_of_not_le h) hpos).ne'
    have hle := (Nat.le_div_iff_mul_le hpos).mp (length_toDigits hne).1
    have hexponent : (1 : ℤ) - (Nat.toDigits 10 (one / units n)).length =
        -((Nat.toDigits 10 (one / units n)).length - 1 : Nat) := by
      have : 0 < (Nat.toDigits 10 (one / units n)).length := Nat.length_toDigits_pos
      omega
    rw [hexponent, zpow_neg, zpow_natCast, le_inv_mul_iff₀ (by positivity)]
    exact_mod_cast hle

theorem found_shortest {n : Nat} (hpos : n ≠ 0) (hn : n < infinityRank) :
    Found n (ceiling (units n)) (shortest n) := by
  have htop : (((ceiling (units n) + 1074).toNat : Nat) : Int) - 1074 = ceiling (units n) := by
    have := lt_ceiling (units n)
    omega
  have h := found_searchFrom hn (ceiling (units n) + 1074).toNat
  rw [htop] at h
  rwa [shortest, if_neg hpos]

theorem rank_shortest {n : Nat} (hn : n < infinityRank) : (shortest n).rank = n := by
  by_cases hpos : n = 0
  · subst hpos
    rfl
  · exact (found_shortest hpos hn).rank

theorem digits_shortest_ne_zero {n : Nat} (hpos : n ≠ 0) (hn : n < infinityRank) : (shortest n).digits ≠ 0 := by
  intro h
  refine hpos ?_
  rw [← rank_shortest hn, rank, if_pos h]

theorem digits_le_one {k : Nat} {e : Int} (h : value ⟨k, e⟩ ≤ 10 ^ e) : k ≤ 1 :=
  Nat.cast_le_one.mp ((mul_le_iff_le_one_left (show (0 : ℚ) < 10 ^ e by positivity)).mp h)

theorem gridFloor_ceiling {n : Nat} (hn : n ≠ 0) : gridFloor n (ceiling (units n)) ≤ 1 :=
  digits_le_one ((gridFloor_le n _).trans (magnitude_le_ceiling hn))

/-- The last digit is not zero, since the next coarser grid does not lead back. -/
theorem digits_shortest_mod_ten {n : Nat} (hpos : n ≠ 0) (hn : n < infinityRank) : (shortest n).digits % 10 ≠ 0 := by
  intro hmod
  obtain ⟨k, hk⟩ := Nat.dvd_of_mod_eq_zero hmod
  have hfound := found_shortest hpos hn
  rcases hfound.le_top.lt_or_eq with hlt | htop
  · have hvalue : (shortest n).value = value ⟨k, (shortest n).exponent + 1⟩ := by
      rw [← Nat.cast_one, ← value_zeros, pow_one, ← hk]
    exact hfound.coarser k _ (Int.lt_succ _) (by omega) ((rank_congr hvalue).symm.trans hfound.rank)
  · -- On the first grid there is no room for ten.
    have hle := hfound.digits_le
    rw [htop] at hle
    have hfloor := gridFloor_ceiling hpos
    have hne := digits_shortest_ne_zero hpos hn
    omega

theorem exponent_nonneg_of_whole {n : Nat} (hpos : n ≠ 0) (hn : n < infinityRank) {k : Nat} (hk : magnitude n = k) :
    0 ≤ (shortest n).exponent := by
  have hone : (1 : ℚ) ≤ magnitude n := by
    have h : 0 < magnitude n := magnitude_zero ▸ magnitude_strictMono (Nat.pos_of_ne_zero hpos)
    rw [hk] at h ⊢
    exact Nat.one_le_cast.mpr (Nat.cast_pos.mp h)
  have htop : 0 ≤ ceiling (units n) := by
    refine Int.not_lt.mp fun hlt => ?_
    have h : (10 : ℚ) ^ ceiling (units n) < 10 ^ (0 : ℤ) := zpow_lt_zpow_right₀ (by norm_num) hlt
    exact ((hone.trans (magnitude_le_ceiling hpos)).trans_lt h).ne (zpow_zero 10).symm
  have hvalue : value ⟨k, 0⟩ = magnitude n := by rw [value, zpow_zero, mul_one, hk]
  exact Int.not_lt.mp fun hlt => (found_shortest hpos hn).coarser k 0 hlt htop (rank_of_value_eq hn.le hvalue)

theorem lt_order_iff {d : Decimal} (hd : d.digits ≠ 0) (k : Int) : k < d.order ↔ 10 ^ k ≤ d.value := by
  obtain ⟨hle, hlt⟩ := length_toDigits hd
  have hlength : 0 < (Nat.toDigits 10 d.digits).length := Nat.length_toDigits_pos
  rw [order, value]
  constructor
  · intro hk
    calc (10 : ℚ) ^ k ≤ 10 ^ (((Nat.toDigits 10 d.digits).length - 1 : Nat) + d.exponent) :=
          zpow_le_zpow_right₀ (by norm_num) (by omega)
      _ = (10 ^ ((Nat.toDigits 10 d.digits).length - 1) : Nat) * 10 ^ d.exponent := by
          rw [zpow_add₀ (by norm_num), zpow_natCast, Nat.cast_pow, Nat.cast_ofNat]
      _ ≤ d.digits * 10 ^ d.exponent := mul_le_mul_of_nonneg_right (Nat.cast_le.mpr hle) (by positivity)
  · intro hk
    refine (zpow_lt_zpow_iff_right₀ (show (1 : ℚ) < 10 by norm_num)).mp ?_
    calc (10 : ℚ) ^ k ≤ d.digits * 10 ^ d.exponent := hk
      _ < (10 ^ (Nat.toDigits 10 d.digits).length : Nat) * 10 ^ d.exponent :=
          mul_lt_mul_of_pos_right (Nat.cast_lt.mpr hlt) (by positivity)
      _ = 10 ^ ((Nat.toDigits 10 d.digits).length + d.exponent) := by
          rw [zpow_add₀ (by norm_num), zpow_natCast, Nat.cast_pow, Nat.cast_ofNat]

/-- If a decimal stands for its own rank, the shortest decimals lie on the same side of it as the magnitudes. -/
theorem le_value_shortest {p : Decimal} (hs : shortest p.rank = p) (hp : p.value ≤ magnitude p.rank) {n : Nat}
    (hn : n < infinityRank) : p.value ≤ (shortest n).value ↔ p.value ≤ magnitude n := by
  constructor
  · intro h
    have hle : p.rank ≤ n := (rank_mono h).trans_eq (rank_shortest hn)
    exact hp.trans (magnitude_strictMono.monotone hle)
  · intro h
    rcases (rank_le_of_value_le h).lt_or_eq with hlt | rfl
    · refine le_of_not_gt fun hvalue => ?_
      have hle : n ≤ p.rank := (rank_shortest hn).symm.trans_le (rank_mono hvalue.le)
      omega
    · rw [hs]

theorem lt_order_shortest {k : Int} (hs : shortest (rank ⟨1, k⟩) = ⟨1, k⟩)
    (hp : numerator ⟨1, k⟩ * one ≤ units (rank ⟨1, k⟩) * denominator ⟨1, k⟩) {n : Nat} (hpos : n ≠ 0)
    (hn : n < infinityRank) : k < (shortest n).order ↔ 10 ^ k ≤ magnitude n := by
  have hvalue : value ⟨1, k⟩ = 10 ^ k := by rw [value, Nat.cast_one, one_mul]
  rw [lt_order_iff (digits_shortest_ne_zero hpos hn), ← hvalue]
  exact le_value_shortest hs ((value_le_magnitude _ _).mpr hp) hn

theorem order_shortest_bounds {n : Nat} (hpos : n ≠ 0) (hn : n < infinityRank) :
    -4 < (shortest n).order ∧ (shortest n).order ≤ 16 ↔ 10 ^ (-4 : ℤ) ≤ magnitude n ∧ magnitude n < 10 ^ 16 := by
  have hlow : -4 < (shortest n).order ↔ 10 ^ (-4 : ℤ) ≤ magnitude n :=
    lt_order_shortest (by decide +kernel) (by decide +kernel) hpos hn
  have hhigh : 16 < (shortest n).order ↔ 10 ^ (16 : ℤ) ≤ magnitude n :=
    lt_order_shortest (by decide +kernel) (by decide +kernel) hpos hn
  refine and_congr hlow ?_
  rw [← not_lt, hhigh, not_le]
  rfl

end Calculator.Decimal
