import Calculator.Binary64.Rank

namespace Calculator.Binary64

open Float.Model UnpackedFloat

theorem toBits_injective {v w : Float} (h : v.toBits = w.toBits) : v = w := by
  obtain ⟨⟨bits, hb⟩⟩ := v
  obtain ⟨⟨bits', hb'⟩⟩ := w
  cases (show bits = bits' from h)
  rfl

theorem toNat_unpackExponent (b : BitVec 64) :
    (@unpackExponent .binary64 b).toNat = b.toNat / block % 2048 := by
  simp [unpackExponent, BitVec.extractLsb, Nat.shiftRight_eq_div_pow, block]

theorem toNat_unpackMantissa (b : BitVec 64) :
    (@unpackMantissa .binary64 b).toNat = b.toNat % block := by
  simp [unpackMantissa, BitVec.extractLsb, block]

/-- What the bits below the sign stand for. -/
inductive Unpacked (s : Sign) : Nat → UnpackedFloat → Prop
  | zero : Unpacked s 0 (.zero s)
  | subnormal {n : Nat} (hpos : 0 < n) (hn : n < block) : Unpacked s n (.finite s n (-1074) hpos)
  | normal {b f : Nat} (hb : b < 2046) (hf : f < block) (hpos : 0 < block + f) :
      Unpacked s ((b + 1) * block + f) (.finite s (block + f) (b - 1074) hpos)
  | infinity : Unpacked s infinityRank (.infinity s)
  | nan {n : Nat} (hn : infinityRank < n) : Unpacked s n .notANumber

theorem toNat_implicit (m : BitVec 52) : (1#1 ++ m).toNat = block + m.toNat := by
  rw [BitVec.toNat_append, ← Nat.shiftLeft_add_eq_or_of_lt m.isLt]
  rfl

theorem toNat_pos_of_ne {w : Nat} {b : BitVec w} (h : b ≠ 0#w) : 0 < b.toNat := by
  rw [Nat.pos_iff_ne_zero]
  exact fun hb => h (BitVec.eq_of_toNat_eq hb)

theorem finite_congr {s : Sign} {m m' : Nat} {e e' : Int} {hpos : 0 < m} (hm : m = m') (he : e = e') :
    UnpackedFloat.finite s m e hpos = .finite s m' e' (hm ▸ hpos) := by
  subst hm he
  rfl

/-- The exponent is split into its greatest value, zero and the rest, and the first two again by the mantissa. -/
theorem unpacked (b : BitVec 64) :
    Unpacked (Sign.ofBitVec (@unpackSign .binary64 b)) (b.toNat % signBit) (unpack .binary64 b) := by
  have hrank : b.toNat % signBit =
      (@unpackExponent .binary64 b).toNat * block + (@unpackMantissa .binary64 b).toNat := by
    rw [toNat_unpackExponent, toNat_unpackMantissa]
    unfold signBit block
    omega
  have hm : (@unpackMantissa .binary64 b).toNat < block := (@unpackMantissa .binary64 b).isLt
  have he : (@unpackExponent .binary64 b).toNat < 2048 := (@unpackExponent .binary64 b).isLt
  delta UnpackedFloat.unpack
  dsimp only
  by_cases hmax : @unpackExponent .binary64 b = -1#_
  · rw [if_pos hmax]
    rw [hmax] at hrank
    by_cases hzero : @unpackMantissa .binary64 b = 0#_
    · rw [hzero] at hrank
      rw [if_pos hzero, hrank]
      exact .infinity
    · rw [if_neg hzero, hrank]
      exact .nan (Nat.lt_add_of_pos_right (toNat_pos_of_ne hzero))
  · rw [if_neg hmax]
    by_cases hmin : @unpackExponent .binary64 b = 0#_
    · rw [if_pos hmin]
      rw [hmin] at hrank
      by_cases hzero : @unpackMantissa .binary64 b = 0#_
      · rw [hzero] at hrank
        rw [dif_pos hzero, hrank]
        exact .zero
      · have hr : b.toNat % signBit = (@unpackMantissa .binary64 b).toNat := by simpa using hrank
        rw [dif_neg hzero, hr, hmin]
        exact .subnormal (toNat_pos_of_ne hzero) hm
    · have hne : (@unpackExponent .binary64 b).toNat ≠ 2047 := fun h => hmax (BitVec.eq_of_toNat_eq h)
      obtain ⟨k, hk⟩ := Nat.exists_eq_add_of_lt (toNat_pos_of_ne hmin)
      rw [Nat.zero_add] at hk
      have hexponent : ((@unpackExponent .binary64 b).toNat : Int) -
          ((Format.binary64.exponentBias : Nat) + (Format.binary64.mantissaBitsWithoutImplicit : Nat)) = k - 1074 := by
        rw [hk]
        change ((k + 1 : Nat) : Int) - (1023 + 52) = k - 1074
        omega
      rw [hk] at hexponent
      rw [if_neg hmin, hrank, hk]
      rw [finite_congr (toNat_implicit _) hexponent]
      exact .normal (by omega) hm _

theorem Unpacked.units_eq {s t : Sign} {n m : Nat} {e : Int} {hpos : 0 < m}
    (h : Unpacked s n (.finite t m e hpos)) : units n = m * Nat.pow 2 (e + 1074).toNat := by
  cases h with
  | subnormal _ hn => exact (units_of_lt hn).trans (Nat.mul_one n).symm
  | @normal b f _ hf =>
      have hb : ((b : Int) - 1074 + 1074).toNat = b := by omega
      rw [units_block b f hf, hb]

theorem units_rank {v : Float} {s : Sign} {m : Nat} {e : Int} {hpos : 0 < m}
    (h : v.toModel.unpack = .finite s m e hpos) : units (rank v) = m * Nat.pow 2 (e + 1074).toNat := by
  have hview := unpacked v.toBits.toBitVec
  rw [show unpack .binary64 v.toBits.toBitVec = .finite s m e hpos from h] at hview
  exact hview.units_eq

theorem normal_lt {b f : Nat} (hb : b < 2046) (hf : f < block) : (b + 1) * block + f < infinityRank := by
  unfold infinityRank block at *
  omega

theorem Unpacked.isFinite {s : Sign} {n : Nat} {u : UnpackedFloat} (h : Unpacked s n u) :
    u.isFinite = true ↔ n < infinityRank := by
  cases h with
  | zero => exact iff_of_true rfl (by decide)
  | subnormal _ hn => exact iff_of_true rfl (Nat.lt_trans hn (by decide))
  | normal hb hf => exact iff_of_true rfl (normal_lt hb hf)
  | infinity => exact iff_of_false nofun (Nat.lt_irrefl _)
  | nan hn => exact iff_of_false nofun (Nat.lt_asymm hn)

theorem Unpacked.isInf {s : Sign} {n : Nat} {u : UnpackedFloat} (h : Unpacked s n u) :
    u.isInf = true ↔ n = infinityRank := by
  cases h with
  | zero => exact iff_of_false nofun (by decide)
  | subnormal _ hn => exact iff_of_false nofun (Nat.ne_of_lt (Nat.lt_trans hn (by decide)))
  | normal hb hf => exact iff_of_false nofun (Nat.ne_of_lt (normal_lt hb hf))
  | infinity => exact iff_of_true rfl rfl
  | nan hn => exact iff_of_false nofun (Nat.ne_of_gt hn)

theorem Unpacked.isNaN {s : Sign} {n : Nat} {u : UnpackedFloat} (h : Unpacked s n u) :
    u.isNaN = true ↔ infinityRank < n := by
  cases h with
  | zero => exact iff_of_false nofun (by decide)
  | subnormal _ hn => exact iff_of_false nofun (Nat.lt_asymm (Nat.lt_trans hn (by decide)))
  | normal hb hf => exact iff_of_false nofun (Nat.lt_asymm (normal_lt hb hf))
  | infinity => exact iff_of_false nofun (Nat.lt_irrefl _)
  | nan hn => exact iff_of_true rfl hn

theorem isFinite_iff (v : Float) : v.isFinite = true ↔ rank v < infinityRank := (unpacked v.toBits.toBitVec).isFinite

theorem isInf_iff (v : Float) : v.isInf = true ↔ rank v = infinityRank := (unpacked v.toBits.toBitVec).isInf

theorem isNaN_iff (v : Float) : v.isNaN = true ↔ infinityRank < rank v := (unpacked v.toBits.toBitVec).isNaN

theorem isNaN_eq_false (v : Float) : v.isNaN = false ↔ rank v ≤ infinityRank := by
  rw [← Bool.not_eq_true, isNaN_iff, Nat.not_lt]

theorem toNat_packComponents (s : Sign) (e : BitVec 11) (m : BitVec 52) :
    (packComponents .binary64 s e m).toNat = s.toBitVec.toNat * signBit + (e.toNat * block + m.toNat) := by
  have hm : m.toNat < 2 ^ 52 := m.isLt
  have he : e.toNat < 2 ^ 11 := e.isLt
  change (s.toBitVec ++ e ++ m).toNat = _
  rw [BitVec.toNat_append, ← Nat.shiftLeft_add_eq_or_of_lt hm, BitVec.toNat_append,
    ← Nat.shiftLeft_add_eq_or_of_lt he, Nat.shiftLeft_eq, Nat.shiftLeft_eq]
  unfold signBit block
  omega

theorem pack_finite {s : Sign} {m : Nat} {e : Int} {hm : 0 < m} (he : e < 972) :
    UnpackedFloat.pack .binary64 (.finite s m e hm) =
      packComponents .binary64 s (if m.log2 = 52 then BitVec.ofNat 11 (e + 1075).toNat else 0#11)
        (BitVec.ofNat 52 m) := by
  have hbiased :
      (e + (Format.binary64.exponentBias : Nat) + (Format.binary64.mantissaBitsWithoutImplicit : Nat)).toNat =
        (e + 1075).toNat := by
    change (e + 1023 + 52).toNat = _
    omega
  have hbits : Format.binary64.mantissaBits = 53 := rfl
  delta UnpackedFloat.pack
  dsimp only
  rw [hbiased, hbits, if_neg (by omega)]
  by_cases hlog : m.log2 = 52
  · rw [if_pos hlog, if_pos (by omega)]
  · rw [if_neg hlog, if_neg (by omega)]

theorem toNat_pack {s : Sign} {n : Nat} {u : UnpackedFloat} (h : Unpacked s n u) (hn : n ≤ infinityRank) :
    (UnpackedFloat.pack .binary64 u).toNat = s.toBitVec.toNat * signBit + n := by
  cases h with
  | zero => exact toNat_packComponents s 0#11 0#52
  | subnormal hpos hlt =>
      have hlog : n.log2 < 52 := (Nat.log2_lt (Nat.ne_of_gt hpos)).mpr hlt
      have hm : (BitVec.ofNat 52 n).toNat = n := Nat.mod_eq_of_lt hlt
      rw [pack_finite (by decide), if_neg (Nat.ne_of_lt hlog), toNat_packComponents, hm]
      simp
  | @normal b f hb hf hpos =>
      have hlow : 52 ≤ (block + f).log2 := (Nat.le_log2 (Nat.ne_of_gt hpos)).mpr (Nat.le_add_right block f)
      have hhigh : (block + f).log2 < 53 := (Nat.log2_lt (Nat.ne_of_gt hpos)).mpr (Nat.add_lt_add_left hf block)
      have he : (BitVec.ofNat 11 ((b : Int) - 1074 + 1075).toNat).toNat = b + 1 := by
        change _ % 2048 = b + 1
        omega
      have hm : (BitVec.ofNat 52 (block + f)).toNat = f := by
        change (block + f) % block = f
        rw [Nat.add_mod_left, Nat.mod_eq_of_lt hf]
      rw [pack_finite (by omega), if_pos (by omega), toNat_packComponents, he, hm]
  | infinity => exact toNat_packComponents s (-1#11) 0#52
  | nan h => exact absurd hn (Nat.not_le_of_gt h)

theorem toNat_signed (b : BitVec 64) :
    b.toNat = (Sign.ofBitVec (@unpackSign .binary64 b)).toBitVec.toNat * signBit + b.toNat % signBit := by
  have hsign : ∀ c : BitVec 1, (Sign.ofBitVec c).toBitVec = c := by decide
  have hbit : (@unpackSign .binary64 b).toNat = b.toNat / signBit % 2 := by
    delta unpackSign
    simp [BitVec.extractLsb, Nat.shiftRight_eq_div_pow, signBit]
  have hb : b.toNat < 2 * signBit := b.isLt
  rw [hsign, hbit]
  unfold signBit at *
  omega

theorem toBits_ofBits {bits : UInt64} (h : bits.toNat % signBit ≤ infinityRank) : (Float.ofBits bits).toBits = bits :=
  UInt64.toNat_inj.mp ((toNat_pack (unpacked bits.toBitVec) h).trans (toNat_signed bits.toBitVec).symm)

theorem isNaN_ofBits (bits : UInt64) : (Float.ofBits bits).isNaN = true ↔ infinityRank < bits.toNat % signBit := by
  by_cases h : bits.toNat % signBit ≤ infinityRank
  · rw [isNaN_iff, rank, toBits_ofBits h]
  · have hnan : unpack .binary64 bits.toBitVec = .notANumber := by
      have hview := (unpacked bits.toBitVec).isNaN.mpr (Nat.lt_of_not_le h)
      cases hunpack : unpack .binary64 bits.toBitVec with
      | notANumber => rfl
      | _ =>
          rw [hunpack] at hview
          cases hview
    refine iff_of_true ?_ (Nat.lt_of_not_le h)
    -- Every payload is packed into the same bits.
    change (unpack .binary64 (UnpackedFloat.pack .binary64 (unpack .binary64 bits.toBitVec))).isNaN = true
    rw [hnan]
    decide

theorem ofRank_rank {v : Float} (h : rank v ≤ infinityRank) : ofRank (isNegative v) (rank v) = v := by
  have hlt : v.toBits.toNat < 2 * signBit := v.toBits.toNat_lt
  have hsigned : (if isNegative v then signBit + rank v else rank v) = v.toBits.toNat := by
    rw [isNegative, rank]
    by_cases hneg : signBit ≤ v.toBits.toNat
    · rw [if_pos (decide_eq_true hneg), Nat.mod_eq_sub_mod hneg, Nat.mod_eq_of_lt (by omega)]
      omega
    · rw [if_neg (by simpa using hneg), Nat.mod_eq_of_lt (by omega)]
  have hbits : UInt64.ofNat (if isNegative v then signBit + rank v else rank v) = v.toBits := by
    rw [hsigned, UInt64.ofNat_toNat]
  rw [ofRank, hbits]
  exact toBits_injective (toBits_ofBits h)

theorem toNat_ofRank (negative : Bool) {n : Nat} (h : n ≤ infinityRank) :
    (ofRank negative n).toBits.toNat = if negative then signBit + n else n := by
  have hn : n < signBit := Nat.lt_of_le_of_lt h infinityRank_lt_signBit
  have hlt : (if negative then signBit + n else n) < 2 ^ 64 := by
    unfold signBit at *
    split <;> omega
  have hbits : (UInt64.ofNat (if negative then signBit + n else n)).toNat = if negative then signBit + n else n :=
    UInt64.toNat_ofNat_of_lt' hlt
  have hrank : (if negative then signBit + n else n) % signBit = n := by
    split
    · rw [Nat.add_mod_left, Nat.mod_eq_of_lt hn]
    · exact Nat.mod_eq_of_lt hn
  rw [ofRank, toBits_ofBits (by rw [hbits, hrank]; exact h), hbits]

theorem rank_ofRank (negative : Bool) {n : Nat} (h : n ≤ infinityRank) : rank (ofRank negative n) = n := by
  have hn : n < signBit := Nat.lt_of_le_of_lt h infinityRank_lt_signBit
  rw [rank, toNat_ofRank negative h]
  split
  · rw [Nat.add_mod_left, Nat.mod_eq_of_lt hn]
  · exact Nat.mod_eq_of_lt hn

theorem isNegative_ofRank (negative : Bool) {n : Nat} (h : n ≤ infinityRank) :
    isNegative (ofRank negative n) = negative := by
  have hn : n < signBit := Nat.lt_of_le_of_lt h infinityRank_lt_signBit
  rw [isNegative, toNat_ofRank negative h]
  cases negative with
  | true => exact decide_eq_true (Nat.le_add_right signBit n)
  | false => exact decide_eq_false (Nat.not_le_of_gt hn)

theorem eq_of_isNaN {v w : Float} (hv : v.isNaN = true) (hw : w.isNaN = true) : v = w := by
  have hbits {u : Float} (hu : u.isNaN = true) : u.toBits.toBitVec = packedNaN .binary64 := by
    have hrank : infinityRank < u.toBits.toBitVec.toNat % signBit := (isNaN_iff u).mp hu
    unfold infinityRank signBit block at hrank
    refine u.toModel.valid.eq_packedNaN (BitVec.eq_of_toNat_eq ?_) fun hm => ?_
    · refine (toNat_unpackExponent u.toBits.toBitVec).trans ?_
      change _ = 2047
      unfold block
      omega
    · have hzero := (toNat_unpackMantissa u.toBits.toBitVec).symm.trans (congrArg BitVec.toNat hm)
      change _ = 0 at hzero
      unfold block at hzero
      omega
  exact toBits_injective (UInt64.eq_of_toBitVec_eq ((hbits hv).trans (hbits hw).symm))

end Calculator.Binary64
