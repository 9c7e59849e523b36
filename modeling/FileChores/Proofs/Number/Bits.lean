import FileChores.Number
import FileChores.Proofs.Number.Rounding

/-!
# The bits of a double

What a double is, read off its bits as one natural number: `2 ^ 52` times the biased exponent, and
the mantissa without its hidden bit behind it.
-/

open Float.Model Float.Model.UnpackedFloat

namespace FileChores.Number

theorem eq_of_bits {x y : Float} (h : x.toBits.toNat = y.toBits.toNat) : x = y :=
  Float.toBits_inj.1 (UInt64.toNat.inj h)

/-! ## Unpacking -/

theorem toNat_unpackMantissa (b : BitVec Format.binary64.numBits) :
    (unpackMantissa b).toNat = b.toNat % 2 ^ 52 := by
  simp [unpackMantissa]

theorem toNat_unpackExponent (b : BitVec Format.binary64.numBits) :
    (unpackExponent b).toNat = b.toNat / 2 ^ 52 % 2 ^ 11 := by
  simp [unpackExponent, Nat.shiftRight_eq_div_pow]

theorem unpackExponent_eq_iff (b : BitVec Format.binary64.numBits) (e : BitVec 11) :
    unpackExponent b = e ↔ b.toNat / 2 ^ 52 % 2 ^ 11 = e.toNat := by
  rw [← toNat_unpackExponent]
  exact BitVec.toNat_inj.symm

theorem unpackMantissa_eq_iff (b : BitVec Format.binary64.numBits) (m : BitVec 52) :
    unpackMantissa b = m ↔ b.toNat % 2 ^ 52 = m.toNat := by
  rw [← toNat_unpackMantissa]
  exact BitVec.toNat_inj.symm

theorem toNat_hidden (m : BitVec 52) : (1#1 ++ m).toNat = 2 ^ 52 + m.toNat := by
  rw [BitVec.toNat_append, ← Nat.shiftLeft_add_eq_or_of_lt m.isLt]
  rfl

theorem unpackSign_of_lt {b : BitVec Format.binary64.numBits} (h : b.toNat < 2 ^ 63) :
    unpackSign b = 0#1 := by
  apply BitVec.eq_of_toNat_eq
  simp [unpackSign, Nat.shiftRight_eq_div_pow]
  omega

theorem unpack_of_ones {b : BitVec Format.binary64.numBits}
    (h : b.toNat / 2 ^ 52 % 2 ^ 11 = 2047) :
    UnpackedFloat.unpack .binary64 b =
      if b.toNat % 2 ^ 52 = 0 then .infinity (.ofBitVec (unpackSign b)) else .notANumber := by
  have hones : unpackExponent b = -1#11 := (unpackExponent_eq_iff b _).2 h
  have hzero := unpackMantissa_eq_iff b 0#52
  rw [BitVec.toNat_zero] at hzero
  simp only [UnpackedFloat.unpack, hones, hzero, if_true]

theorem unpack_signed {b : BitVec Format.binary64.numBits}
    (hexponent : b.toNat / 2 ^ 52 % 2 ^ 11 ≠ 0)
    (hones : b.toNat / 2 ^ 52 % 2 ^ 11 ≠ 2047) :
    ∃ hpos, UnpackedFloat.unpack .binary64 b =
      .finite (.ofBitVec (unpackSign b)) (2 ^ 52 + b.toNat % 2 ^ 52)
        ((b.toNat / 2 ^ 52 % 2 ^ 11 : Nat) - 1075) hpos := by
  have hones' : unpackExponent b ≠ -1#11 := by
    rw [Ne, unpackExponent_eq_iff]
    exact hones
  have hzero : unpackExponent b ≠ 0#11 := by
    rw [Ne, unpackExponent_eq_iff]
    exact hexponent
  refine ⟨by omega, ?_⟩
  simp only [UnpackedFloat.unpack, hones', hzero, if_false, toNat_hidden, toNat_unpackMantissa,
    toNat_unpackExponent]
  rfl

theorem unpack_normal {b : BitVec Format.binary64.numBits} (hlow : 0 < b.toNat / 2 ^ 52)
    (hhigh : b.toNat / 2 ^ 52 < 2047) :
    ∃ hpos, UnpackedFloat.unpack .binary64 b =
      .finite .positive (2 ^ 52 + b.toNat % 2 ^ 52) (b.toNat / 2 ^ 52 - 1075) hpos := by
  have hmod : b.toNat / 2 ^ 52 % 2 ^ 11 = b.toNat / 2 ^ 52 := Nat.mod_eq_of_lt (by omega)
  have hsign : unpackSign b = 0#1 := unpackSign_of_lt (by omega)
  obtain ⟨hpos, hunpack⟩ := unpack_signed (b := b) (by omega) (by omega)
  refine ⟨hpos, ?_⟩
  simp only [hunpack, hsign, hmod]
  rfl

/-- A positive normal double: its mantissa, and how far its exponent is above the least one. -/
structure IsNormal (x : Float) (m e : Nat) : Prop where
  low : 2 ^ 52 ≤ m
  high : m < 2 ^ 53
  range : e < 2046
  bits : x.toBits.toNat = e * 2 ^ 52 + m

theorem IsNormal.unpack {x : Float} {m e : Nat} (h : IsNormal x m e) :
    ∃ hpos, x.toModel.unpack = .finite .positive m ((e : Int) - 1074) hpos := by
  obtain ⟨hlow, hhigh, hrange, hbits⟩ := h
  have hbits' : x.toModel.toBits.toBitVec.toNat = e * 2 ^ 52 + m := hbits
  obtain ⟨hpos, hunpack⟩ := unpack_normal (b := x.toModel.toBits.toBitVec) (by omega) (by omega)
  have hmantissa : 2 ^ 52 + x.toModel.toBits.toBitVec.toNat % 2 ^ 52 = m := by omega
  have hexponent : (x.toModel.toBits.toBitVec.toNat : Int) / 2 ^ 52 - 1075 = e - 1074 := by omega
  refine ⟨by omega, ?_⟩
  show UnpackedFloat.unpack .binary64 x.toModel.toBits.toBitVec = _
  simp only [hunpack, hmantissa, hexponent]

/-! ## Packing -/

theorem toNat_packComponents (exponent : BitVec 11) (mantissa : BitVec 52) :
    (packComponents .binary64 .positive exponent mantissa).toNat =
      exponent.toNat * 2 ^ 52 + mantissa.toNat := by
  rw [packComponents, BitVec.toNat_append, BitVec.toNat_append,
    ← Nat.shiftLeft_add_eq_or_of_lt mantissa.isLt, Nat.shiftLeft_eq]
  simp [Sign.toBitVec]

/-- A mantissa of 53 bits, with an exponent that is taken for infinity where it is too great. -/
theorem toNat_pack {m : Nat} {e : Int} (hlow : 2 ^ 52 ≤ m) (hhigh : m < 2 ^ 53)
    (he : -1074 ≤ e) (hpos : 0 < m) :
    (UnpackedFloat.pack .binary64 (.finite .positive m e hpos)).toNat =
      min (2047 * 2 ^ 52) ((e + 1074).toNat * 2 ^ 52 + m) := by
  have hlog : m.log2 + 1 = Format.binary64.mantissaBits := by
    rw [log2_mantissa hlow hhigh]
    rfl
  have hbiased : (e + Format.binary64.exponentBias + (52 : Nat)).toNat =
      (e + 1074).toNat + 1 := by
    rw [show Format.binary64.exponentBias = 1023 from rfl]
    omega
  simp only [UnpackedFloat.pack, hbiased, if_pos hlog]
  split
  · rw [packedInfinity, toNat_packComponents]
    simp
    omega
  · rw [toNat_packComponents, BitVec.toNat_ofNat, BitVec.toNat_ofNat]
    omega

theorem toNat_pack_round {m s : Nat} {e : Int} (hm : m.log2 = 52 + s) (he : -1074 ≤ e + s) :
    (UnpackedFloat.pack .binary64 (roundWithAccuracy .binary64 .positive m e .exact)).toNat =
      min (2047 * 2 ^ 52) ((e + s + 1074).toNat * 2 ^ 52 + nearest m (2 ^ s)) := by
  obtain ⟨hlow, hhigh⟩ := nearest_bounds hm
  by_cases hlt : nearest m (2 ^ s) < 2 ^ 53
  · obtain ⟨hpos, hround⟩ := round_of_lt hm he hlt .positive
    rw [hround, toNat_pack hlow hlt he]
  · have heq : nearest m (2 ^ s) = 2 ^ 53 := by omega
    obtain ⟨hpos, hround⟩ := round_of_carry hm he heq .positive
    rw [hround, toNat_pack (Nat.le_refl _) (by decide) (by omega), heq]
    omega

/-! ## Natural numbers -/

theorem log2_mul_two_pow {n : Nat} (hn : n ≠ 0) (k : Nat) : (n * 2 ^ k).log2 = n.log2 + k := by
  obtain ⟨hlow, hhigh⟩ := (Nat.log2_eq_iff hn).1 rfl
  have hpos := Nat.two_pow_pos k
  rw [Nat.log2_eq_iff (Nat.mul_ne_zero hn hpos.ne'), Nat.pow_add, Nat.add_right_comm, Nat.pow_add]
  exact ⟨Nat.mul_le_mul_right _ hlow, Nat.mul_lt_mul_of_pos_right hhigh hpos⟩

theorem unpacked_ofNat {n : Nat} (hn : n ≠ 0) (hlog : n.log2 ≤ 52) :
    UnpackedFloat.ofNat .binary64 n =
      roundWithAccuracy .binary64 .positive (n * 2 ^ (52 - n.log2)) (n.log2 - 52) .exact := by
  have hgt : compare (n : Int) 0 = .gt := by
    rw [compare_gt_iff_gt]
    omega
  have hshift : (0 - Format.binary64.targetExponent (totalExponent n 0)).toNat = 52 - n.log2 := by
    simp only [Format.targetExponent, totalExponent, Format.minExponent, Format.mantissaBits]
    omega
  have hexponent : (0 - (52 - n.log2 : Nat) : Int) = n.log2 - 52 := by omega
  simp only [UnpackedFloat.ofNat, UnpackedFloat.ofInt, UnpackedFloat.normalize, hgt,
    UnpackedFloat.round, decreaseExponent, hshift, hexponent, Int.toNat_natCast, Nat.shiftLeft_eq]

theorem unpack_one :
    ∃ hpos, (Float.ofBits 0x3FF0000000000000).toModel.unpack =
      .finite .positive (2 ^ 52) (-52) hpos :=
  ⟨by decide, by rfl⟩

theorem toNat_mul {x y : Float.Model} {m m' : Nat} {e e' : Int} {hpos : 0 < m} {hpos' : 0 < m'}
    (hx : x.unpack = .finite .positive m e hpos) (hy : y.unpack = .finite .positive m' e' hpos') :
    (x * y).toBits.toNat =
      (UnpackedFloat.pack .binary64
        (roundWithAccuracy .binary64 .positive (m * m') (e + e') .exact)).toNat := by
  show (Float.Model.pack (UnpackedFloat.mul .binary64 x.unpack y.unpack)).toBits.toNat = _
  rw [hx, hy]
  rfl

/-- The bits of the double nearest to a natural number. Those of a carry are right as they are: it
is added to the exponent. -/
def bitsOf (n : Nat) : Nat :=
  min (2047 * 2 ^ 52) ((n.log2 + 1022) * 2 ^ 52 + nearest (n * 2 ^ 52) (2 ^ n.log2))

theorem nearest_of_log2_le {n : Nat} (hlog : n.log2 ≤ 52) :
    nearest (n * 2 ^ 52) (2 ^ n.log2) = n * 2 ^ (52 - n.log2) := by
  have hscale : n * 2 ^ (52 - n.log2) * 2 ^ n.log2 = n * 2 ^ 52 := by
    rw [Nat.mul_assoc, ← Nat.pow_add, Nat.sub_add_cancel hlog]
  rw [← hscale, nearest_of_multiple (Nat.two_pow_pos n.log2)]

theorem scaled_bounds {n : Nat} (hn : n ≠ 0) (hlog : n.log2 ≤ 52) :
    2 ^ 52 ≤ n * 2 ^ (52 - n.log2) ∧ n * 2 ^ (52 - n.log2) < 2 ^ 53 := by
  have hpos := Nat.two_pow_pos (52 - n.log2)
  rw [← Nat.log2_eq_iff (Nat.mul_ne_zero hn hpos.ne'), log2_mul_two_pow hn]
  exact Nat.add_sub_cancel' hlog

theorem isNormal_toFloat {n : Nat} (hn : n ≠ 0) (hlog : n.log2 ≤ 52) :
    IsNormal n.toUInt64.toFloat (n * 2 ^ (52 - n.log2)) (n.log2 + 1022) := by
  obtain ⟨hlow, hhigh⟩ := scaled_bounds hn hlog
  have hsmall : n.toUInt64.toNat = n := by
    have : n < 2 ^ 53 := lt_of_le_of_lt (Nat.le_mul_of_pos_right n (Nat.two_pow_pos _)) hhigh
    apply Nat.mod_eq_of_lt
    omega
  have hscaled : (n * 2 ^ (52 - n.log2)).log2 = 52 + 0 := log2_mantissa hlow hhigh
  have hround := toNat_pack_round (e := (n.log2 : Int) - 52) hscaled (by omega)
  rw [← unpacked_ofNat hn hlog, Nat.pow_zero, nearest_one] at hround
  refine ⟨hlow, hhigh, by omega, ?_⟩
  show (UnpackedFloat.pack .binary64 (UnpackedFloat.ofNat .binary64 n.toUInt64.toNat)).toNat = _
  rw [hsmall, hround]
  omega

theorem toBits_ofNat_of_log2_le {n : Nat} (hn : n ≠ 0) (hlog : n.log2 ≤ 52) :
    (n.toUInt64.toFloat * Float.ofBits 0x3FF0000000000000).toBits.toNat = bitsOf n := by
  obtain ⟨hlow, hhigh⟩ := scaled_bounds hn hlog
  obtain ⟨_, hone⟩ := unpack_one
  obtain ⟨_, hunpack⟩ := (isNormal_toFloat hn hlog).unpack
  have hscaled : (n * 2 ^ (52 - n.log2) * 2 ^ 52).log2 = 52 + 52 := by
    have hne := Nat.mul_ne_zero hn (Nat.two_pow_pos (52 - n.log2)).ne'
    rw [log2_mul_two_pow hne, log2_mantissa hlow hhigh]
  rw [bitsOf, nearest_of_log2_le hlog]
  show (n.toUInt64.toFloat.toModel * _).toBits.toNat = _
  rw [toNat_mul hunpack hone, toNat_pack_round hscaled (by omega),
    nearest_of_multiple (Nat.two_pow_pos 52)]
  omega

theorem unpacked_ofScientific {n : Nat} (hn : n ≠ 0) :
    UnpackedFloat.ofScientific .binary64 n 0 =
      roundWithAccuracy .binary64 .positive (n * 2 ^ 53) (-53) .exact := by
  have hsmall : ¬ (0 : Int) < -((2 ^ Format.binary64.exponentBits : Int) + n.log2) := by
    show ¬ (0 : Int) < -(2 ^ 11 + n.log2)
    omega
  rw [UnpackedFloat.ofScientific, dif_neg hn, if_neg (by decide), if_neg hsmall,
    if_pos (Int.le_refl 0)]
  show roundWithAccuracy .binary64 .positive (n <<< 53 * 1) (-53 + 0) .exact = _
  rw [Nat.shiftLeft_eq, Nat.mul_one, Int.add_zero]

theorem toBits_ofScientific {n : Nat} (hn : n ≠ 0) :
    (Float.Model.ofScientific n 0).toBits.toNat = bitsOf n := by
  have hscaled : (n * 2 ^ 53).log2 = 52 + (n.log2 + 1) := by
    rw [log2_mul_two_pow hn]
    omega
  have hnearest : nearest (n * 2 ^ 53) (2 ^ (n.log2 + 1)) = nearest (n * 2 ^ 52) (2 ^ n.log2) := by
    calc
      nearest (n * 2 ^ 53) (2 ^ (n.log2 + 1))
        = nearest (n * 2 ^ 52 * 2 ^ 1) (2 ^ n.log2 * 2 ^ 1) := by
            rw [Nat.mul_assoc, ← Nat.pow_add, ← Nat.pow_add]
      _ = nearest (n * 2 ^ 52) (2 ^ n.log2) := nearest_mul _ _ (Nat.two_pow_pos 1)
  show (UnpackedFloat.pack .binary64 (UnpackedFloat.ofScientific .binary64 n 0)).toNat = _
  rw [unpacked_ofScientific hn, toNat_pack_round hscaled (by omega), hnearest, bitsOf]
  omega

/-- Every natural number becomes the double nearest to it, or infinity. -/
theorem toBits_ofNat {n : Nat} (hn : n ≠ 0) : (Float.ofNat n).toBits.toNat = bitsOf n := by
  show (Float.ofScientific n false 0).toBits.toNat = bitsOf n
  unfold Float.ofScientific
  split
  · next h => exact toBits_ofNat_of_log2_le hn (Nat.lt_succ_iff.1 ((Nat.log2_lt hn).2 h.1))
  · exact toBits_ofScientific hn

theorem ofNat_zero_bits : (Float.ofNat 0).toBits.toNat = 0 := by decide

/-- The double is the nearest to the natural number. Zero is the one that is not negative. -/
def IsNearest (n : Nat) (x : Float) : Prop :=
  x.toBits.toNat = if n = 0 then 0 else bitsOf n

theorem isNearest_ofNat (n : Nat) : IsNearest n (Float.ofNat n) := by
  rw [IsNearest]
  split
  · next hn => rw [hn, ofNat_zero_bits]
  · next hn => exact toBits_ofNat hn

theorem IsNearest.eq_ofNat {n : Nat} {x : Float} (h : IsNearest n x) : x = Float.ofNat n :=
  eq_of_bits (h.trans (isNearest_ofNat n).symm)

end FileChores.Number
