import FileChores.Proofs.Number.Whole

/-!
# Natural numbers without rounding

Up to `2 ^ 53` each natural number is a double. These doubles are ordered as the numbers are, their
sums are rounded once, and each is written as the decimal numeral of its number.
-/

open Float.Model Float.Model.UnpackedFloat

namespace FileChores.Number

def exact (x : Float) : ℚ :=
  (if isNegative x then -1 else 1) * ((magnitude x).1 * 2 ^ (magnitude x).2)

theorem log2_le_of_le {n : Nat} (h : n ≤ 2 ^ 53) : n.log2 ≤ 52 ∨ n = 2 ^ 53 := by
  by_cases hn : n = 0
  · left
    rw [hn, Nat.log2_zero]
    omega
  rcases Nat.lt_or_eq_of_le h with hlt | heq
  · exact .inl (Nat.lt_succ_iff.1 ((Nat.log2_lt hn).2 hlt))
  · exact .inr heq

theorem isNormal_ofNat {n : Nat} (hn : n ≠ 0) (h : n ≤ 2 ^ 53) :
    ∃ m, m * 2 ^ n.log2 = n * 2 ^ 52 ∧ IsNormal (Float.ofNat n) m (n.log2 + 1022) := by
  have hmantissa : ∃ m, 2 ^ 52 ≤ m ∧ m < 2 ^ 53 ∧ m * 2 ^ n.log2 = n * 2 ^ 52 := by
    rcases log2_le_of_le h with hlog | rfl
    · obtain ⟨hlow, hhigh⟩ := scaled_bounds hn hlog
      refine ⟨_, hlow, hhigh, ?_⟩
      rw [Nat.mul_assoc, ← Nat.pow_add, Nat.sub_add_cancel hlog]
    · refine ⟨2 ^ 52, Nat.le_refl _, by decide, ?_⟩
      rw [Nat.log2_two_pow, Nat.mul_comm]
  obtain ⟨m, hlow, hhigh, hm⟩ := hmantissa
  have hlog : n.log2 ≤ 53 := by
    rcases log2_le_of_le h with hlog | rfl
    · omega
    · rw [Nat.log2_two_pow]
  refine ⟨m, hm, hlow, hhigh, by omega, ?_⟩
  rw [toBits_ofNat hn, bitsOf, ← hm, nearest_of_multiple (Nat.two_pow_pos _)]
  omega

theorem unpack_ofNat_zero : (Float.ofNat 0).toModel.unpack = .zero .positive := by rfl

theorem exact_of_isNormal {x : Float} {m e : Nat} (h : IsNormal x m e) :
    exact x = m * 2 ^ ((e : Int) - 1074) := by
  rw [exact, h.unsigned, h.magnitude]
  simp

theorem isFinite_ofNat {n : Nat} (h : n ≤ 2 ^ 53) : (Float.ofNat n).isFinite = true := by
  by_cases hn : n = 0
  · subst hn
    decide
  obtain ⟨m, -, hnormal⟩ := isNormal_ofNat hn h
  obtain ⟨_, hunpack⟩ := hnormal.unpack
  show (Float.ofNat n).toModel.unpack.isFinite = true
  rw [hunpack]
  rfl

theorem exact_ofNat {n : Nat} (h : n ≤ 2 ^ 53) : exact (Float.ofNat n) = n := by
  by_cases hn : n = 0
  · subst hn
    have hzero : (magnitude (Float.ofNat 0)).1 = 0 := by decide
    rw [exact, hzero]
    simp
  obtain ⟨m, hm, hnormal⟩ := isNormal_ofNat hn h
  have hscaled : (m : ℚ) * 2 ^ n.log2 = n * 2 ^ 52 := by exact_mod_cast hm
  have hexponent : ((n.log2 + 1022 : Nat) : Int) - 1074 = n.log2 - 52 := by omega
  rw [exact_of_isNormal hnormal, hexponent, zpow_sub₀ (by norm_num), ← mul_div_assoc, zpow_natCast,
    hscaled]
  exact mul_div_cancel_right₀ _ (by norm_num)

/-! ## Order -/

section

variable {a b m m' : Nat}

theorem smaller_of_lt (ha : a ≠ 0) (hm : m * 2 ^ a.log2 = a * 2 ^ 52)
    (hm' : m' * 2 ^ b.log2 = b * 2 ^ 52) (h : a < b) :
    a.log2 < b.log2 ∨ a.log2 = b.log2 ∧ m < m' := by
  have hle : a.log2 ≤ b.log2 := by
    have hb : b ≠ 0 := Nat.ne_of_gt (Nat.zero_lt_of_lt h)
    exact (Nat.le_log2 hb).2 (le_trans (Nat.log2_self_le ha) h.le)
  rcases Nat.lt_or_eq_of_le hle with hlt | heq
  · exact .inl hlt
  · rw [← heq] at hm'
    refine .inr ⟨heq, Nat.lt_of_mul_lt_mul_right (a := 2 ^ a.log2) ?_⟩
    omega

theorem compare_of_lt (ha : a ≠ 0) (hm : m * 2 ^ a.log2 = a * 2 ^ 52)
    (hm' : m' * 2 ^ b.log2 = b * 2 ^ 52) (h : a < b) :
    (compare (((a.log2 + 1022 : Nat) : Int) - 1074) (((b.log2 + 1022 : Nat) : Int) - 1074)).then
      (compare m m') = .lt := by
  rcases smaller_of_lt ha hm hm' h with hlt | ⟨heq, hlt⟩
  · rw [Int.compare_eq_lt.2 (by omega)]
    rfl
  · rw [Int.compare_eq_eq.2 (by omega), Nat.compare_eq_lt.2 hlt]
    rfl

theorem compare_of_gt (hb : b ≠ 0) (hm : m * 2 ^ a.log2 = a * 2 ^ 52)
    (hm' : m' * 2 ^ b.log2 = b * 2 ^ 52) (h : b < a) :
    (compare (((a.log2 + 1022 : Nat) : Int) - 1074) (((b.log2 + 1022 : Nat) : Int) - 1074)).then
      (compare m m') = .gt := by
  rcases smaller_of_lt hb hm' hm h with hlt | ⟨heq, hlt⟩
  · rw [Int.compare_eq_gt.2 (by omega)]
    rfl
  · rw [Int.compare_eq_eq.2 (by omega), Nat.compare_eq_gt.2 hlt]
    rfl

theorem compare_of_eq (hm : m * 2 ^ a.log2 = a * 2 ^ 52) (hm' : m' * 2 ^ a.log2 = a * 2 ^ 52) :
    (compare (((a.log2 + 1022 : Nat) : Int) - 1074) (((a.log2 + 1022 : Nat) : Int) - 1074)).then
      (compare m m') = .eq := by
  have heq : m = m' := Nat.eq_of_mul_eq_mul_right (Nat.two_pow_pos _) (hm.trans hm'.symm)
  rw [Int.compare_eq_eq.2 rfl, Nat.compare_eq_eq.2 heq]
  rfl

theorem compare_ofNat (ha : a ≤ 2 ^ 53) (hb : b ≤ 2 ^ 53) :
    (Float.ofNat a).toModel.unpack.compare (Float.ofNat b).toModel.unpack =
      some (compare a b) := by
  by_cases ha0 : a = 0 <;> by_cases hb0 : b = 0
  · subst ha0 hb0
    rfl
  · subst ha0
    obtain ⟨m, -, hnormal⟩ := isNormal_ofNat hb0 hb
    obtain ⟨_, hunpack⟩ := hnormal.unpack
    rw [hunpack, unpack_ofNat_zero, Nat.compare_eq_lt.2 (Nat.pos_of_ne_zero hb0)]
    rfl
  · subst hb0
    obtain ⟨m, -, hnormal⟩ := isNormal_ofNat ha0 ha
    obtain ⟨_, hunpack⟩ := hnormal.unpack
    rw [hunpack, unpack_ofNat_zero, Nat.compare_eq_gt.2 (Nat.pos_of_ne_zero ha0)]
    rfl
  · obtain ⟨m, hm, hnormal⟩ := isNormal_ofNat ha0 ha
    obtain ⟨m', hm', hnormal'⟩ := isNormal_ofNat hb0 hb
    obtain ⟨_, hunpack⟩ := hnormal.unpack
    obtain ⟨_, hunpack'⟩ := hnormal'.unpack
    rw [hunpack, hunpack', UnpackedFloat.compare]
    rcases Nat.lt_trichotomy a b with h | rfl | h
    · rw [compare_of_lt ha0 hm hm' h, Nat.compare_eq_lt.2 h]
    · rw [compare_of_eq hm hm', Nat.compare_eq_eq.2 rfl]
    · rw [compare_of_gt hb0 hm hm' h, Nat.compare_eq_gt.2 h]

theorem ofNat_lt_iff (ha : a ≤ 2 ^ 53) (hb : b ≤ 2 ^ 53) :
    Float.ofNat a < Float.ofNat b ↔ a < b := by
  have hlt : Float.ofNat a < Float.ofNat b ↔
      (Float.ofNat a).toModel.unpack.lt (Float.ofNat b).toModel.unpack = true := decide_eq_true_iff
  rw [hlt, UnpackedFloat.lt, compare_ofNat ha hb, ← Nat.compare_eq_lt]
  simp

end

/-! ## Sums -/

/-- Both mantissas, brought to the smaller exponent, add up to that of the sum. -/
theorem aligned_sum {a b m m' : Nat} (hm : m * 2 ^ a.log2 = a * 2 ^ 52)
    (hm' : m' * 2 ^ b.log2 = b * 2 ^ 52) :
    (m * 2 ^ (a.log2 - min a.log2 b.log2) + m' * 2 ^ (b.log2 - min a.log2 b.log2)) *
      2 ^ min a.log2 b.log2 = (a + b) * 2 ^ 52 := by
  rw [Nat.add_mul, Nat.mul_assoc, Nat.mul_assoc, ← Nat.pow_add, ← Nat.pow_add,
    Nat.sub_add_cancel (Nat.min_le_left _ _), Nat.sub_add_cancel (Nat.min_le_right _ _), hm, hm',
    Nat.add_mul]

theorem unpacked_add {m m' : Nat} {e e' : Int} (hpos : 0 < m) (hpos' : 0 < m') :
    UnpackedFloat.add .binary64 (.finite .positive m e hpos) (.finite .positive m' e' hpos') =
      UnpackedFloat.round .binary64 .positive
        (m * 2 ^ (e - min e e').toNat + m' * 2 ^ (e' - min e e').toNat) (min e e') := by
  have hsum : 0 < m * 2 ^ (e - min e e').toNat + m' * 2 ^ (e' - min e e').toNat :=
    Nat.add_pos_left (Nat.mul_pos hpos (Nat.two_pow_pos _)) _
  simp only [UnpackedFloat.add, UnpackedFloat.normalize, decreaseExponent, Sign.apply,
    Nat.shiftLeft_eq]
  rw [← Int.natCast_add, Int.compare_eq_gt.2 (by omega), Int.toNat_natCast]

theorem round_of_le {m s : Nat} {e : Int} (hm : m.log2 = 52 + s) (he : -1074 ≤ e + s) :
    UnpackedFloat.round .binary64 .positive m e =
      roundWithAccuracy .binary64 .positive m e .exact := by
  have hshift : (e - (e + s)).toNat = 0 := by omega
  simp only [UnpackedFloat.round, targetExponent_eq hm he, decreaseExponent, hshift,
    Nat.shiftLeft_zero, Int.natCast_zero, Int.sub_zero]

/-- A number that is given with a mantissa of at least 53 bits is rounded to the nearest double. -/
theorem toNat_pack_of_scaled {n mantissa l : Nat} (hn : n ≠ 0)
    (hmantissa : mantissa * 2 ^ l = n * 2 ^ 52) (hl : l ≤ n.log2) :
    (UnpackedFloat.pack .binary64 (UnpackedFloat.round .binary64 .positive mantissa
      ((l : Int) - 52))).toNat = bitsOf n := by
  have hne : mantissa ≠ 0 := by
    rintro rfl
    have := Nat.mul_ne_zero hn (Nat.two_pow_pos 52).ne'
    omega
  have hlog : mantissa.log2 = 52 + (n.log2 - l) := by
    have := congrArg Nat.log2 hmantissa
    rw [log2_mul_two_pow hne, log2_mul_two_pow hn] at this
    omega
  have hnearest : nearest (n * 2 ^ 52) (2 ^ n.log2) = nearest mantissa (2 ^ (n.log2 - l)) := by
    rw [← hmantissa, ← nearest_mul mantissa _ (Nat.two_pow_pos l), ← Nat.pow_add,
      Nat.sub_add_cancel hl]
  rw [round_of_le hlog (by omega), toNat_pack_round hlog (by omega), bitsOf, hnearest]
  congr 3
  omega

theorem toBits_add {a b : Nat} (ha0 : a ≠ 0) (hb0 : b ≠ 0) (ha : a ≤ 2 ^ 53) (hb : b ≤ 2 ^ 53) :
    (Float.ofNat a + Float.ofNat b).toBits.toNat = bitsOf (a + b) := by
  obtain ⟨m, hm, hnormal⟩ := isNormal_ofNat ha0 ha
  obtain ⟨m', hm', hnormal'⟩ := isNormal_ofNat hb0 hb
  obtain ⟨_, hunpack⟩ := hnormal.unpack
  obtain ⟨_, hunpack'⟩ := hnormal'.unpack
  have hexponent : min (((a.log2 + 1022 : Nat) : Int) - 1074) (((b.log2 + 1022 : Nat) : Int) - 1074)
      = (min a.log2 b.log2 : Nat) - 52 := by omega
  have hshift : (((a.log2 + 1022 : Nat) : Int) - 1074 - ((min a.log2 b.log2 : Nat) - 52)).toNat =
      a.log2 - min a.log2 b.log2 := by omega
  have hshift' : (((b.log2 + 1022 : Nat) : Int) - 1074 - ((min a.log2 b.log2 : Nat) - 52)).toNat =
      b.log2 - min a.log2 b.log2 := by omega
  have hsum : a + b ≠ 0 := by omega
  have hlog : a.log2 ≤ (a + b).log2 :=
    (Nat.le_log2 hsum).2 (le_trans (Nat.log2_self_le ha0) (Nat.le_add_right a b))
  show (UnpackedFloat.pack .binary64 (UnpackedFloat.add .binary64 (Float.ofNat a).toModel.unpack
    (Float.ofNat b).toModel.unpack)).toNat = _
  rw [hunpack, hunpack', unpacked_add, hexponent, hshift, hshift']
  exact toNat_pack_of_scaled hsum (aligned_sum hm hm') (le_trans (Nat.min_le_left _ _) hlog)

theorem toNat_repack {x : Float} {m e : Nat} (h : IsNormal x m e) :
    (UnpackedFloat.pack .binary64 x.toModel.unpack).toNat = x.toBits.toNat := by
  obtain ⟨hpos, hunpack⟩ := h.unpack
  obtain ⟨hlow, hhigh, hrange, hbits⟩ := h
  rw [hunpack, toNat_pack hlow hhigh (by omega), hbits]
  omega

theorem ofNat_zero_add {b : Nat} (hb0 : b ≠ 0) (hb : b ≤ 2 ^ 53) :
    Float.ofNat 0 + Float.ofNat b = Float.ofNat b := by
  obtain ⟨m, -, hnormal⟩ := isNormal_ofNat hb0 hb
  obtain ⟨_, hunpack⟩ := hnormal.unpack
  apply eq_of_bits
  rw [← toNat_repack hnormal]
  show (UnpackedFloat.pack .binary64 (UnpackedFloat.add .binary64 (Float.ofNat 0).toModel.unpack
    (Float.ofNat b).toModel.unpack)).toNat = _
  rw [unpack_ofNat_zero, hunpack]
  rfl

theorem ofNat_add_zero {a : Nat} (ha0 : a ≠ 0) (ha : a ≤ 2 ^ 53) :
    Float.ofNat a + Float.ofNat 0 = Float.ofNat a := by
  obtain ⟨m, -, hnormal⟩ := isNormal_ofNat ha0 ha
  obtain ⟨_, hunpack⟩ := hnormal.unpack
  apply eq_of_bits
  rw [← toNat_repack hnormal]
  show (UnpackedFloat.pack .binary64 (UnpackedFloat.add .binary64 (Float.ofNat a).toModel.unpack
    (Float.ofNat 0).toModel.unpack)).toNat = _
  rw [unpack_ofNat_zero, hunpack]
  rfl

/-- The sum of two numbers that are exact is the double nearest to their sum. -/
theorem ofNat_add {a b : Nat} (ha : a ≤ 2 ^ 53) (hb : b ≤ 2 ^ 53) :
    Float.ofNat a + Float.ofNat b = Float.ofNat (a + b) := by
  by_cases ha0 : a = 0 <;> by_cases hb0 : b = 0
  · subst ha0 hb0
    exact eq_of_bits (by decide)
  · subst ha0
    rw [ofNat_zero_add hb0 hb, Nat.zero_add]
  · subst hb0
    rw [ofNat_add_zero ha0 ha, Nat.add_zero]
  · apply eq_of_bits
    rw [toBits_add ha0 hb0 ha hb, toBits_ofNat (by omega)]

/-! ## Text -/

theorem toDigits_mul_ten_pow {c : Nat} (hc : 0 < c) (j : Nat) :
    Nat.toDigits 10 c ++ List.replicate j '0' = Nat.toDigits 10 (c * 10 ^ j) := by
  induction j with
  | zero => simp
  | succ j ih =>
      have hpos : 0 < c * 10 ^ j := Nat.mul_pos hc (Nat.pow_pos (by decide))
      calc
        Nat.toDigits 10 c ++ List.replicate (j + 1) '0'
          = Nat.toDigits 10 (c * 10 ^ j) ++ Nat.toDigits 10 0 := by
              rw [List.replicate_succ', ← List.append_assoc, ih, Nat.toDigits_zero]
        _ = Nat.toDigits 10 (10 * (c * 10 ^ j) + 0) :=
              Nat.toDigits_append_toDigits (by decide) hpos (by decide)
        _ = Nat.toDigits 10 (c * 10 ^ (j + 1)) := by
              rw [Nat.add_zero, Nat.pow_succ, Nat.mul_comm 10, Nat.mul_assoc]

theorem eq_of_stands {n m v : Nat} (hlog : n.log2 ≤ 52) (hm : m * 2 ^ n.log2 = n * 2 ^ 52)
    (h : Decimal.Stands hiddenBit m (((n.log2 + 1022 : Nat) : Int) - 1074) v) : v = n := by
  obtain ⟨hlow, hhigh, -⟩ := h
  have hunit : (((n.log2 + 1022 : Nat) : Int) - 1074).toNat = 0 := by omega
  have hplaces : (-(((n.log2 + 1022 : Nat) : Int) - 1074)).toNat = 52 - n.log2 := by omega
  have hreach := Decimal.reach_eq_one_or_two hiddenBit m
  rw [hunit, hplaces, Nat.pow_zero, Nat.mul_one, Nat.mul_assoc] at hlow hhigh
  have hscaled : v * 2 ^ (52 - n.log2) = m := by omega
  apply Nat.eq_of_mul_eq_mul_right (Nat.two_pow_pos 52)
  rw [← hm, ← hscaled, Nat.mul_assoc, ← Nat.pow_add, Nat.sub_add_cancel hlog]

theorem text_ofNat_of_log2_le {n : Nat} (hn : n ≠ 0) (h : n ≤ 2 ^ 53) (hlog : n.log2 ≤ 52) :
    text (Float.ofNat n) = toString n := by
  obtain ⟨m, hm, hnormal⟩ := isNormal_ofNat hn h
  have hplaces : (-(((n.log2 + 1022 : Nat) : Int) - 1074)).toNat = 52 - n.log2 := by omega
  have hwhole : 2 ^ (-(((n.log2 + 1022 : Nat) : Int) - 1074)).toNat ∣ m := by
    rw [hplaces]
    refine ⟨n, Nat.eq_of_mul_eq_mul_right (Nat.two_pow_pos n.log2) ?_⟩
    rw [hm, Nat.mul_right_comm, ← Nat.pow_add, Nat.sub_add_cancel hlog, Nat.mul_comm]
  have hpos : 0 < m := Nat.lt_of_lt_of_le (by decide) hnormal.low
  obtain ⟨c, j, hshortest, hstands⟩ := Decimal.shortest_whole hiddenBit hpos hwhole
  have hvalue := eq_of_stands hlog hm hstands
  have hc : 0 < c := by
    apply Nat.pos_of_ne_zero
    rintro rfl
    omega
  rw [← String.toList_inj, hnormal.text, hshortest, Decimal.positional_whole,
    toDigits_mul_ten_pow hc, hvalue, Nat.toString_eq_repr, Nat.toList_repr]

theorem text_ofNat {n : Nat} (h : n ≤ 2 ^ 53) : text (Float.ofNat n) = toString n := by
  by_cases hn : n = 0
  · subst hn
    exact text_zero
  rcases log2_le_of_le h with hlog | rfl
  · exact text_ofNat_of_log2_le hn h hlog
  · decide +kernel

end FileChores.Number
