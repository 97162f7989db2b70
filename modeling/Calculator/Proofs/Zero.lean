import Calculator.Proofs.Bits

namespace Calculator.Binary64

open Float.Model UnpackedFloat

theorem unpack_zero : (0.0 : Float).toModel.unpack = .zero .positive := rfl

theorem Unpacked.beq_zero {s : Sign} {n : Nat} {u : UnpackedFloat} (h : Unpacked s n u) :
    u.beq (.zero .positive) = true ↔ n = 0 := by
  cases h with
  | zero => exact iff_of_true rfl rfl
  | subnormal hpos => exact iff_of_false (by cases s <;> exact nofun) (Nat.ne_of_gt hpos)
  | @normal b f =>
      refine iff_of_false (by cases s <;> exact nofun) (Nat.ne_of_gt ?_)
      have hpos : 0 < (b + 1) * block := Nat.mul_pos (Nat.succ_pos b) (by decide)
      omega
  | infinity => exact iff_of_false (by cases s <;> exact nofun) (by decide)
  | nan hn => exact iff_of_false nofun (Nat.ne_zero_of_lt hn)

theorem beq_zero_iff_rank (v : Float) : (v == 0.0) = true ↔ rank v = 0 := by
  change v.toModel.unpack.beq (0.0 : Float).toModel.unpack = true ↔ _
  rw [unpack_zero]
  exact (unpacked v.toBits.toBitVec).beq_zero

theorem beq_zero_iff (v : Float) : (v == 0.0) = true ↔ v = 0.0 ∨ v = -0.0 := by
  rw [beq_zero_iff_rank]
  constructor
  · intro h
    have hlt := v.toBits.toNat_lt
    have hbits : v.toBits.toNat = 0 ∨ v.toBits.toNat = signBit := by
      unfold rank signBit at *
      omega
    rcases hbits with h | h
    · exact Or.inl (toBits_injective (UInt64.toNat_inj.mp h))
    · exact Or.inr (toBits_injective (UInt64.toNat_inj.mp h))
  · rintro (rfl | rfl) <;> rfl

end Calculator.Binary64
