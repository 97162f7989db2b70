namespace Calculator.Binary64

/-- How many magnitudes lie between neighbouring powers of two: `2 ^ 52`. -/
def block : Nat := 0x10000000000000

def infinityRank : Nat := 2047 * block

def signBit : Nat := 0x8000000000000000

def isNegative (v : Float) : Bool := signBit ≤ v.toBits.toNat

def rank (v : Float) : Nat := v.toBits.toNat % signBit

def ofRank (negative : Bool) (n : Nat) : Float :=
  Float.ofBits (UInt64.ofNat (if negative then signBit + n else n))

/-- The magnitude of rank `n`, counted in units of `2 ^ (-1074)`. At `infinityRank` this is the power of
two that would come next, which is where rounding places the end of the finite range. -/
def units (n : Nat) : Nat :=
  if n < block then n else (block + n % block) * Nat.pow 2 (n / block - 1)

def one : Nat := Nat.pow 2 1074

def floorRank (t : Nat) : Nat :=
  let shift := t.log2 - 52
  shift * block + t / Nat.pow 2 shift

theorem infinityRank_lt_signBit : infinityRank < signBit := by decide

theorem units_of_lt {n : Nat} (h : n < block) : units n = n := if_pos h

theorem units_block (b f : Nat) (h : f < block) : units ((b + 1) * block + f) = (block + f) * Nat.pow 2 b := by
  unfold block at *
  have hn : ¬ (b + 1) * 0x10000000000000 + f < 0x10000000000000 := by omega
  have hr : ((b + 1) * 0x10000000000000 + f) % 0x10000000000000 = f := by omega
  have hq : ((b + 1) * 0x10000000000000 + f) / 0x10000000000000 = b + 1 := by omega
  simp only [units, block, if_neg hn, hr, hq, Nat.add_sub_cancel]

end Calculator.Binary64
