import FileChores.Proofs.Decimal.Shortest
import FileChores.Proofs.Number.Bits

/-!
# Whole numbers

The doubles without a sign and without a fraction are those that a run of digits is read as, and
each of them is read back from its text.
-/

open Float.Model Float.Model.UnpackedFloat

namespace FileChores.Number

/-- A finite number without a sign and without a fraction. -/
structure IsWhole (x : Float) : Prop where
  finite : x.isFinite = true
  unsigned : isNegative x = false
  integral : 2 ^ (-(magnitude x).2).toNat ∣ (magnitude x).1

theorem hiddenBit_eq : hiddenBit = 2 ^ 52 := rfl

theorem isNegative_eq_false_iff (x : Float) :
    isNegative x = false ↔ x.toBits.toNat < 2 ^ 63 := by
  have hlt : x.toBits.toNat < 2 ^ 64 := x.toBits.toNat_lt
  rw [isNegative, Nat.testBit_eq_decide_div_mod_eq, decide_eq_false_iff_not]
  omega

theorem IsNormal.magnitude {x : Float} {m e : Nat} (h : IsNormal x m e) :
    magnitude x = (m, (e : Int) - 1074) := by
  obtain ⟨hlow, hhigh, hrange, hbits⟩ := h
  have hfraction : x.toBits.toNat % hiddenBit = m - 2 ^ 52 := by
    rw [hiddenBit_eq]
    omega
  have hexponent : x.toBits.toNat / hiddenBit % 2048 = e + 1 := by
    rw [hiddenBit_eq]
    omega
  simp only [Number.magnitude, hfraction, hexponent]
  rw [hiddenBit_eq, Nat.add_sub_cancel' hlow]

theorem IsNormal.unsigned {x : Float} {m e : Nat} (h : IsNormal x m e) : isNegative x = false := by
  obtain ⟨hlow, hhigh, hrange, hbits⟩ := h
  rw [isNegative_eq_false_iff]
  omega

theorem IsNormal.isWhole {x : Float} {m e : Nat} (h : IsNormal x m e)
    (hwhole : 2 ^ (-((e : Int) - 1074)).toNat ∣ m) : IsWhole x where
  finite := by
    obtain ⟨_, hunpack⟩ := h.unpack
    show x.toModel.unpack.isFinite = true
    rw [hunpack]
    rfl
  unsigned := h.unsigned
  integral := by
    rw [h.magnitude]
    exact hwhole

theorem IsWhole.isInf_eq_false {x : Float} (h : IsWhole x) : x.isInf = false := by
  have hfinite : x.toModel.unpack.isFinite = true := h.finite
  show x.toModel.unpack.isInf = false
  cases hunpack : x.toModel.unpack with
  | infinity sign => rw [hunpack] at hfinite; cases hfinite
  | _ => rfl

theorem IsWhole.exponent_ne {x : Float} (h : IsWhole x) :
    x.toBits.toNat / 2 ^ 52 % 2 ^ 11 ≠ 2047 := by
  intro hones
  have hfinite : x.toModel.unpack.isFinite = true := h.finite
  rw [Float.Model.unpack, unpack_of_ones (b := x.toModel.toBits.toBitVec) hones] at hfinite
  split at hfinite <;> cases hfinite

theorem IsWhole.eq_zero_of_exponent {x : Float} (h : IsWhole x)
    (hexponent : x.toBits.toNat / 2 ^ 52 = 0) : x.toBits.toNat = 0 := by
  have hzero : x.toBits.toNat / hiddenBit % 2048 = 0 := by
    rw [hiddenBit_eq, hexponent]
  have hmagnitude : magnitude x = (x.toBits.toNat % 2 ^ 52, -1074) := by
    simp only [magnitude, hzero]
    rw [hiddenBit_eq]
  have hintegral := h.integral
  rw [hmagnitude] at hintegral
  have hdvd : 2 ^ 52 ∣ x.toBits.toNat % 2 ^ 52 :=
    dvd_trans (Nat.pow_dvd_pow 2 (show 52 ≤ (-(-1074 : Int)).toNat by decide)) hintegral
  have := Nat.eq_zero_of_dvd_of_lt hdvd (Nat.mod_lt _ (by decide))
  omega

theorem IsWhole.eq_zero_or_normal {x : Float} (h : IsWhole x) :
    x.toBits.toNat = 0 ∨
      ∃ m e, IsNormal x m e ∧ 2 ^ (-((e : Int) - 1074)).toNat ∣ m := by
  by_cases hexponent : x.toBits.toNat / 2 ^ 52 = 0
  · left
    exact h.eq_zero_of_exponent hexponent
  · right
    have hsign := (isNegative_eq_false_iff x).1 h.unsigned
    have hones := h.exponent_ne
    have hnormal : IsNormal x (2 ^ 52 + x.toBits.toNat % 2 ^ 52) (x.toBits.toNat / 2 ^ 52 - 1) := by
      constructor <;> omega
    have hintegral := h.integral
    rw [hnormal.magnitude] at hintegral
    exact ⟨_, _, hnormal, hintegral⟩

/-! ## Digits -/

theorem nearest_log2 {n p k q : Nat} (hn : n ≠ 0) (hlog : (n * 2 ^ p).log2 = k + q)
    (hk : k ≤ 52) :
    nearest (n * 2 ^ 52) (2 ^ n.log2) = nearest (n * 2 ^ p * 2 ^ (52 - k)) (2 ^ q) := by
  have hscale : n * 2 ^ 52 * 2 ^ p = n * 2 ^ p * 2 ^ (52 - k) * 2 ^ k := by
    rw [Nat.mul_assoc _ (2 ^ (52 - k)), ← Nat.pow_add, Nat.sub_add_cancel hk, Nat.mul_right_comm]
  have hunit : 2 ^ n.log2 * 2 ^ p = 2 ^ q * 2 ^ k := by
    rw [log2_mul_two_pow hn] at hlog
    rw [← Nat.pow_add, hlog, Nat.add_comm, Nat.pow_add]
  calc
    nearest (n * 2 ^ 52) (2 ^ n.log2)
      = nearest (n * 2 ^ 52 * 2 ^ p) (2 ^ n.log2 * 2 ^ p) := by
          rw [nearest_mul _ _ (Nat.two_pow_pos p)]
    _ = nearest (n * 2 ^ p * 2 ^ (52 - k) * 2 ^ k) (2 ^ q * 2 ^ k) := by rw [hscale, hunit]
    _ = nearest (n * 2 ^ p * 2 ^ (52 - k)) (2 ^ q) := nearest_mul _ _ (Nat.two_pow_pos k)

theorem nearest_of_stands {m n : Nat} {exponent : Int}
    (h : Decimal.Stands hiddenBit m exponent n) :
    nearest (n * 2 ^ (-exponent).toNat) (2 ^ exponent.toNat) = m := by
  obtain ⟨hlow, hhigh, hinside⟩ := h
  have hunit := Nat.two_pow_pos exponent.toNat
  have hreach := Decimal.reach_eq_one_or_two hiddenBit m
  rw [Nat.mul_assoc 4] at hlow hhigh hinside
  generalize n * 2 ^ (-exponent).toNat = value at *
  generalize 2 ^ exponent.toNat = unit at *
  generalize Decimal.reach hiddenBit m = reach at *
  simp only [Nat.sub_mul, Nat.add_mul, Nat.mul_assoc 4] at hlow hhigh hinside
  apply nearest_eq hunit
  · rw [Nat.mul_assoc]
    rcases hreach with rfl | rfl <;> omega
  · rw [Nat.mul_assoc]
    omega
  · rw [Nat.mul_assoc]
    intro htie
    apply Decidable.not_not.1
    intro hodd
    obtain ⟨hne, hne'⟩ := hinside hodd
    rcases hreach with rfl | rfl <;> omega

theorem lt_of_stands {m n : Nat} {exponent : Int} (h : Decimal.Stands hiddenBit m exponent n)
    (hm : m < 2 ^ 53) : n * 2 ^ (-exponent).toNat < 2 ^ 53 * 2 ^ exponent.toNat := by
  have hhigh := h.high
  have hunit := Nat.two_pow_pos exponent.toNat
  have hmantissa := Nat.mul_le_mul_right (2 ^ exponent.toNat) (show m + 1 ≤ 2 ^ 53 by omega)
  rw [Nat.mul_assoc 4] at hhigh
  generalize n * 2 ^ (-exponent).toNat = value at *
  generalize 2 ^ exponent.toNat = unit at *
  simp only [Nat.add_mul, Nat.mul_assoc 4] at hhigh hmantissa
  omega

/-- Below the least mantissa the interval is half as wide, so that it rounds to it with a carry. -/
theorem lowest_of_stands {m n : Nat} {exponent : Int}
    (h : Decimal.Stands hiddenBit m exponent n)
    (hbelow : n * 2 ^ (-exponent).toNat < 2 ^ 52 * 2 ^ exponent.toNat) (hm : 2 ^ 52 ≤ m) :
    m = 2 ^ 52 ∧ 2 ^ 51 * 2 ^ exponent.toNat ≤ n * 2 ^ (-exponent).toNat ∧
      nearest (n * 2 ^ (-exponent).toNat * 2) (2 ^ exponent.toNat) = 2 ^ 53 := by
  obtain ⟨hlow, hhigh, -⟩ := h
  have hunit := Nat.two_pow_pos exponent.toNat
  rw [Nat.mul_assoc 4] at hlow hhigh
  generalize n * 2 ^ (-exponent).toNat = value at *
  generalize 2 ^ exponent.toNat = unit at *
  simp only [Nat.sub_mul, Nat.add_mul, Nat.mul_assoc 4] at hlow hhigh
  rw [hiddenBit_eq] at hlow
  by_cases heq : m = 2 ^ 52
  · subst heq
    rw [Decimal.reach_self] at hlow
    refine ⟨rfl, by omega, nearest_eq hunit ?_ ?_ fun _ => by decide⟩ <;> omega
  · rw [Decimal.reach_of_ne heq] at hlow
    have := Nat.mul_le_mul_right unit (show 2 ^ 52 + 1 ≤ m by omega)
    omega

/-- A carry from the mantissa is one more in the exponent. -/
theorem carried (e : Nat) : e * 2 ^ 52 + 2 ^ 53 = (e + 1) * 2 ^ 52 + 2 ^ 52 := by ring

/-- Every natural number in the interval of a whole number becomes that number. -/
theorem bitsOf_of_stands {x : Float} {m n e : Nat} (hx : IsNormal x m e)
    (hwhole : 2 ^ (-((e : Int) - 1074)).toNat ∣ m) (hn : n ≠ 0)
    (h : Decimal.Stands hiddenBit m ((e : Int) - 1074) n) :
    bitsOf n = e * 2 ^ 52 + m := by
  obtain ⟨hlow, hhigh, hrange, -⟩ := hx
  have hplaces : (-((e : Int) - 1074)).toNat ≤ 52 := by
    have hle := Nat.le_of_dvd (by omega) hwhole
    exact Nat.lt_succ_iff.1 ((Nat.pow_lt_pow_iff_right (by decide)).1 (lt_of_le_of_lt hle hhigh))
  have hpos := Nat.two_pow_pos (-((e : Int) - 1074)).toNat
  have hvalue := Nat.mul_ne_zero hn hpos.ne'
  have hlog := log2_mul_two_pow hn (-((e : Int) - 1074)).toNat
  by_cases hbelow :
    n * 2 ^ (-((e : Int) - 1074)).toNat < 2 ^ 52 * 2 ^ ((e : Int) - 1074).toNat
  · obtain ⟨rfl, hbound, hcarry⟩ := lowest_of_stands h hbelow hlow
    have hlog' : (n * 2 ^ (-((e : Int) - 1074)).toNat).log2 = 51 + ((e : Int) - 1074).toNat := by
      rw [Nat.log2_eq_iff hvalue, Nat.add_right_comm, Nat.pow_add, Nat.pow_add]
      exact ⟨hbound, hbelow⟩
    have hexponent : n.log2 + 1022 + 1 = e := by omega
    have hnearest : nearest (n * 2 ^ 52) (2 ^ n.log2) = 2 ^ 53 :=
      (nearest_log2 hn hlog' (by decide)).trans hcarry
    rw [bitsOf, hnearest, carried, hexponent]
    apply Nat.min_eq_right
    omega
  · have hlog' : (n * 2 ^ (-((e : Int) - 1074)).toNat).log2 = 52 + ((e : Int) - 1074).toNat := by
      rw [Nat.log2_eq_iff hvalue, Nat.add_right_comm, Nat.pow_add, Nat.pow_add]
      exact ⟨Nat.not_lt.1 hbelow, lt_of_stands h hhigh⟩
    have hexponent : n.log2 + 1022 = e := by omega
    have hnearest : nearest (n * 2 ^ 52) (2 ^ n.log2) = m := by
      rw [nearest_log2 hn hlog' (Nat.le_refl _), Nat.sub_self, Nat.pow_zero, Nat.mul_one]
      exact nearest_of_stands h
    rw [bitsOf, hnearest, hexponent]
    apply Nat.min_eq_right
    omega

theorem text_zero : text (Float.ofNat 0) = "0" := by decide

theorem IsNormal.text {x : Float} {m e : Nat} (h : IsNormal x m e) :
    text x = (Decimal.shortest hiddenBit m ((e : Int) - 1074)).positional := by
  obtain ⟨hpos, hunpack⟩ := h.unpack
  have hnan : x.isNaN = false := by
    show x.toModel.unpack.isNaN = false
    rw [hunpack]
    rfl
  have hzero : (x == 0) = false := by
    show x.toModel.unpack.beq (0 : Float).toModel.unpack = false
    rw [hunpack]
    rfl
  have hinf : x.isInf = false := by
    show x.toModel.unpack.isInf = false
    rw [hunpack]
    rfl
  simp only [Number.text, hnan, hzero, hinf, h.unsigned, h.magnitude]
  rfl

theorem IsNormal.text_digits {x : Float} {m e : Nat} (h : IsNormal x m e)
    (hwhole : 2 ^ (-((e : Int) - 1074)).toNat ∣ m) :
    ∃ c j, (Number.text x).toList = Nat.toDigits 10 c ++ List.replicate j '0' ∧
      Float.ofNat (c * 10 ^ j) = x := by
  have hpos : 0 < m := Nat.lt_of_lt_of_le (by decide) h.low
  obtain ⟨c, j, hshortest, hstands⟩ := Decimal.shortest_whole hiddenBit hpos hwhole
  have hne := hstands.ne_zero hpos
  refine ⟨c, j, ?_, ?_⟩
  · rw [h.text, hshortest, Decimal.positional_whole]
  · apply eq_of_bits
    rw [toBits_ofNat hne, bitsOf_of_stands h hwhole hne hstands, h.bits]

theorem IsWhole.text_digits {x : Float} (h : IsWhole x) :
    ∃ c run, (text x).toList = c :: run ∧ (c :: run).all Char.isDigit = true ∧
      ofDigits (c :: run) = x := by
  rcases h.eq_zero_or_normal with hzero | ⟨m, e, hnormal, hwhole⟩
  · have hx : x = Float.ofNat 0 := eq_of_bits (hzero.trans ofNat_zero_bits.symm)
    subst hx
    exact ⟨'0', [], by rw [text_zero]; rfl, rfl, rfl⟩
  · obtain ⟨c, j, htext, hvalue⟩ := hnormal.text_digits hwhole
    obtain ⟨first, run, hdigits⟩ :=
      List.exists_cons_of_ne_nil (Nat.toDigits_ne_nil (n := c) (b := 10))
    have hwritten : Nat.toDigits 10 c ++ List.replicate j '0' =
        first :: (run ++ List.replicate j '0') := by rw [hdigits, List.cons_append]
    refine ⟨first, run ++ List.replicate j '0', ?_, ?_, ?_⟩
    · rw [htext, hwritten]
    · rw [← hwritten]
      exact Decimal.isDigit_whole c j
    · rw [← hwritten, ofDigits, Decimal.ofDigitChars_whole, hvalue]

theorem isWhole_zero : IsWhole (Float.ofNat 0) where
  finite := by decide
  unsigned := by decide
  integral := by
    have hzero : (magnitude (Float.ofNat 0)).1 = 0 := by decide
    rw [hzero]
    exact Nat.dvd_zero _

theorem isInf_of_bits {x : Float} (h : x.toBits.toNat = 2047 * 2 ^ 52) : x.isInf = true := by
  have hbits : x.toModel.toBits.toBitVec.toNat = 2047 * 2 ^ 52 := h
  show (UnpackedFloat.unpack .binary64 x.toModel.toBits.toBitVec).isInf = true
  rw [unpack_of_ones (by rw [hbits]; decide), if_pos (by rw [hbits]; decide)]
  rfl

theorem isInf_or_isWhole_ofNat (n : Nat) :
    (Float.ofNat n).isInf = true ∨ IsWhole (Float.ofNat n) := by
  by_cases hn : n = 0
  · subst hn
    exact .inr isWhole_zero
  have hbits := toBits_ofNat hn
  unfold bitsOf at hbits
  have hscaled : (n * 2 ^ 52).log2 = 52 + n.log2 := by rw [log2_mul_two_pow hn, Nat.add_comm]
  obtain ⟨hlow, hhigh⟩ := nearest_bounds hscaled
  by_cases hinf : 2047 * 2 ^ 52 ≤ (n.log2 + 1022) * 2 ^ 52 + nearest (n * 2 ^ 52) (2 ^ n.log2)
  · left
    rw [Nat.min_eq_left hinf] at hbits
    exact isInf_of_bits hbits
  right
  rw [Nat.min_eq_right (Nat.not_le.1 hinf).le] at hbits
  by_cases hlt : nearest (n * 2 ^ 52) (2 ^ n.log2) < 2 ^ 53
  · have hnormal : IsNormal (Float.ofNat n) _ (n.log2 + 1022) := ⟨hlow, hlt, by omega, hbits⟩
    apply hnormal.isWhole
    by_cases hlog : n.log2 ≤ 52
    · have hplaces : (-(((n.log2 + 1022 : Nat) : Int) - 1074)).toNat = 52 - n.log2 := by omega
      rw [hplaces, nearest_of_log2_le hlog]
      exact Nat.dvd_mul_left _ _
    · have hplaces : (-(((n.log2 + 1022 : Nat) : Int) - 1074)).toNat = 0 := by omega
      rw [hplaces]
      exact Nat.one_dvd _
  · have hcarry : nearest (n * 2 ^ 52) (2 ^ n.log2) = 2 ^ 53 := by omega
    rw [hcarry, carried] at hbits
    have hnormal : IsNormal (Float.ofNat n) (2 ^ 52) (n.log2 + 1022 + 1) :=
      ⟨Nat.le_refl _, by decide, by omega, hbits⟩
    apply hnormal.isWhole
    apply Nat.pow_dvd_pow 2
    omega

theorem isInf_or_isWhole_ofDigits (digits : List Char) :
    (ofDigits digits).isInf = true ∨ IsWhole (ofDigits digits) :=
  isInf_or_isWhole_ofNat _

end FileChores.Number
