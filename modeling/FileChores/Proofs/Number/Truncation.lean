import FileChores.Number
import FileChores.Proofs.Number.Bits

/-!
# Cutting off a fraction

A finite double is its mantissa times a power of two. Made a 64-bit word, one that is not negative
loses its fraction, and is the greatest word if it is above all of them.
-/

open Float.Model Float.Model.UnpackedFloat

namespace FileChores.Number

def whole (x : Float) : Nat :=
  (magnitude x).1 * 2 ^ (magnitude x).2.toNat / 2 ^ (-(magnitude x).2).toNat

theorem magnitude_eq (x : Float) : magnitude x =
    if x.toBits.toNat / 2 ^ 52 % 2 ^ 11 = 0 then (x.toBits.toNat % 2 ^ 52, -1074)
    else (2 ^ 52 + x.toBits.toNat % 2 ^ 52,
      ((x.toBits.toNat / 2 ^ 52 % 2 ^ 11 : Nat) : Int) - 1075) := by
  have hexponent : x.toBits.toNat / hiddenBit % 2048 = x.toBits.toNat / 2 ^ 52 % 2 ^ 11 := rfl
  simp only [magnitude, hexponent]
  cases hbiased : x.toBits.toNat / 2 ^ 52 % 2 ^ 11 with
  | zero => rfl
  | succ biased =>
      have hcast : (biased : Int) - 1074 = ((biased + 1 : Nat) : Int) - 1075 := by omega
      rw [if_neg (Nat.succ_ne_zero biased), ← hcast]
      rfl

/-! ## Unpacking a number of either sign -/

section

variable {b : BitVec Format.binary64.numBits}

theorem unpack_zero (hexponent : b.toNat / 2 ^ 52 % 2 ^ 11 = 0) (hmantissa : b.toNat % 2 ^ 52 = 0) :
    UnpackedFloat.unpack .binary64 b = .zero (.ofBitVec (unpackSign b)) := by
  have hzero : unpackExponent b = 0#11 := (unpackExponent_eq_iff b _).2 hexponent
  have hnone : unpackMantissa b = 0#52 := (unpackMantissa_eq_iff b _).2 hmantissa
  simp only [UnpackedFloat.unpack, hzero, hnone, if_true, dif_pos]
  rfl

theorem unpack_subnormal (hexponent : b.toNat / 2 ^ 52 % 2 ^ 11 = 0)
    (hmantissa : b.toNat % 2 ^ 52 ≠ 0) :
    ∃ hpos, UnpackedFloat.unpack .binary64 b =
      .finite (.ofBitVec (unpackSign b)) (b.toNat % 2 ^ 52) (-1074) hpos := by
  have hzero : unpackExponent b = 0#11 := (unpackExponent_eq_iff b _).2 hexponent
  have hsome : unpackMantissa b ≠ 0#52 := by
    rw [Ne, unpackMantissa_eq_iff]
    exact hmantissa
  refine ⟨by omega, ?_⟩
  simp only [UnpackedFloat.unpack, hzero, hsome, if_true, dif_neg, not_false_eq_true,
    toNat_unpackMantissa]
  rfl

end

theorem unpack_of_finite {x : Float} (h : x.isFinite = true) :
    (∃ sign, x.toModel.unpack = .zero sign ∧ (magnitude x).1 = 0) ∨
      ∃ sign hpos, x.toModel.unpack = .finite sign (magnitude x).1 (magnitude x).2 hpos := by
  have hfinite : x.toModel.unpack.isFinite = true := h
  have hones : x.toBits.toNat / 2 ^ 52 % 2 ^ 11 ≠ 2047 := by
    intro hones
    rw [Float.Model.unpack, unpack_of_ones (b := x.toModel.toBits.toBitVec) hones] at hfinite
    split at hfinite <;> cases hfinite
  rw [magnitude_eq]
  by_cases hexponent : x.toBits.toNat / 2 ^ 52 % 2 ^ 11 = 0
  · rw [if_pos hexponent]
    by_cases hmantissa : x.toBits.toNat % 2 ^ 52 = 0
    · exact .inl ⟨_, unpack_zero hexponent hmantissa, hmantissa⟩
    · exact .inr ⟨_, unpack_subnormal hexponent hmantissa⟩
  · rw [if_neg hexponent]
    exact .inr ⟨_, unpack_signed hexponent hones⟩

/-! ## To a 64-bit word -/

theorem roundToInt_positive (m : Nat) (e : Int) :
    roundToInt .positive m e = (m * 2 ^ e.toNat / 2 ^ (-e).toNat : Nat) := by
  have hshift : (0 - (e - e.toNat)).toNat = (-e).toNat := by omega
  simp only [roundToInt, decreaseExponent, shiftToExponent, Sign.apply, Int.sub_zero, hshift,
    (shift_exact _ _).1, Nat.shiftLeft_eq]

theorem toNat_ofNatClamp (n : Nat) : (UInt64.ofNatClamp n).toNat = min n (UInt64.size - 1) := by
  rw [UInt64.ofNatClamp]
  split
  · rw [UInt64.toNat_ofNatLT]
    omega
  · rw [UInt64.toNat_ofNatLT]
    omega

theorem toUInt64_eq {x : Float} (hfinite : x.isFinite = true) (hsign : 0 ≤ x) :
    x.toUInt64.toNat = min (whole x) (UInt64.size - 1) := by
  show (UInt64.ofNatClamp (x.toModel.unpack.toInt 0 (UInt64.size - 1)).toNat).toNat = _
  rw [toNat_ofNatClamp]
  rcases unpack_of_finite hfinite with ⟨sign, hunpack, hzero⟩ | ⟨sign, hpos, hunpack⟩
  · rw [hunpack, whole, hzero, Nat.zero_mul, Nat.zero_div]
    rfl
  · cases sign with
    | positive =>
        rw [hunpack, UnpackedFloat.toInt, roundToInt_positive]
        rfl
    | negative =>
        have hle : (0 : Float).toModel.unpack.le x.toModel.unpack = true := of_decide_eq_true hsign
        have hzero : (0 : Float).toModel.unpack = .zero .positive := rfl
        rw [hzero, hunpack] at hle
        cases hle

end FileChores.Number
