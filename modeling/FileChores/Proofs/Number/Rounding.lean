import Mathlib

/-!
# Rounding to a double

A natural number is brought to a double by shifting it to 53 bits and rounding to the nearest
mantissa, the even one of two.
-/

open Float.Model Float.Model.UnpackedFloat

namespace FileChores.Number

/-- The multiple of the unit that is nearest to `n`, in units; the even one of two. -/
def nearest (n unit : Nat) : Nat :=
  if 2 * (n % unit) < unit then n / unit
  else if 2 * (n % unit) = unit then n / unit + n / unit % 2
  else n / unit + 1

theorem nearest_eq {n unit m : Nat} (hunit : 0 < unit) (hlow : 2 * m * unit ≤ 2 * n + unit)
    (hhigh : 2 * n ≤ 2 * m * unit + unit)
    (htie : 2 * m * unit = 2 * n + unit ∨ 2 * n = 2 * m * unit + unit → m % 2 = 0) :
    nearest n unit = m := by
  have hdiv := Nat.div_add_mod n unit
  have hmod := Nat.mod_lt n hunit
  generalize hq : n / unit = q at *
  generalize hr : n % unit = r at *
  have hcases : m = q ∨ m = q + 1 := by
    have hle : q ≤ m := by
      apply Nat.le_of_not_lt
      intro h
      have := Nat.mul_le_mul_right unit (show m + 1 ≤ q from h)
      nlinarith
    have hge : m ≤ q + 1 := by
      apply Nat.le_of_not_lt
      intro h
      have := Nat.mul_le_mul_right unit (show q + 2 ≤ m from h)
      nlinarith
    omega
  rw [nearest, hq, hr]
  rcases hcases with rfl | rfl
  · have heq : 2 * n = 2 * m * unit + 2 * r := by rw [← hdiv]; ring
    split
    · rfl
    split
    · have := htie (.inr (by omega))
      omega
    · omega
  · have heq : 2 * n + 2 * unit = 2 * (q + 1) * unit + 2 * r := by rw [← hdiv]; ring
    split
    · omega
    split
    · have := htie (.inl (by omega))
      omega
    · rfl

theorem nearest_mul (n unit : Nat) {c : Nat} (hc : 0 < c) :
    nearest (n * c) (unit * c) = nearest n unit := by
  have hlt : 2 * (n % unit) * c < unit * c ↔ 2 * (n % unit) < unit := Nat.mul_lt_mul_right hc
  have heq : 2 * (n % unit) * c = unit * c ↔ 2 * (n % unit) = unit :=
    Nat.mul_left_inj (Nat.pos_iff_ne_zero.1 hc)
  rw [nearest, nearest, Nat.mul_div_mul_right n unit hc, Nat.mul_mod_mul_right, ← Nat.mul_assoc]
  simp only [hlt, heq]

theorem nearest_one (n : Nat) : nearest n 1 = n := by
  rw [nearest, Nat.mod_one, if_pos (by decide), Nat.div_one]

theorem nearest_of_multiple {m unit : Nat} (hunit : 0 < unit) : nearest (m * unit) unit = m := by
  have hscale := nearest_mul m 1 hunit
  rwa [Nat.one_mul, nearest_one] at hscale

theorem nearest_le {n unit m : Nat} (hunit : 0 < unit) (h : n ≤ m * unit) : nearest n unit ≤ m := by
  have hdiv := Nat.div_add_mod n unit
  have hle : n / unit ≤ m := Nat.div_le_of_le_mul (by rwa [Nat.mul_comm] at h)
  unfold nearest
  split
  · exact hle
  next hlow =>
  have hlt : n / unit < m := by
    apply Nat.lt_of_le_of_ne hle
    intro heq
    rw [heq, Nat.mul_comm] at hdiv
    omega
  split <;> omega

theorem le_nearest {n unit m : Nat} (hunit : 0 < unit) (h : m * unit ≤ n) : m ≤ nearest n unit := by
  have := (Nat.le_div_iff_mul_le hunit).2 h
  unfold nearest
  split
  · exact this
  split <;> omega

/-! ## Shifting -/

theorem shift_succ (em : ExtendedMantissa) (s : Nat) : em >>> (s + 1) = (em >>> s).shiftRightOne :=
  rfl

/-- What the bits that were shifted out tell about the rest of a division by `2 ^ s`. -/
theorem shift_exact (m s : Nat) :
    (ExtendedMantissa.ofMantissaAndAccuracy m .exact >>> s).mantissa = m / 2 ^ s ∧
    ((ExtendedMantissa.ofMantissaAndAccuracy m .exact >>> s).roundBit = true ↔
      2 ^ s ≤ 2 * (m % 2 ^ s)) ∧
    ((ExtendedMantissa.ofMantissaAndAccuracy m .exact >>> s).stickyBit = true ↔
      2 * (m % 2 ^ s) ≠ 0 ∧ 2 * (m % 2 ^ s) ≠ 2 ^ s) := by
  induction s with
  | zero =>
      simp [ExtendedMantissa.ofMantissaAndAccuracy, HShiftRight.hShiftRight, Nat.repeat,
        Nat.mod_one]
  | succ s ih =>
      obtain ⟨hmantissa, hround, hsticky⟩ := ih
      have hlt := Nat.mod_lt m (Nat.two_pow_pos s)
      have hmod : m % 2 ^ (s + 1) = m % 2 ^ s + 2 ^ s * (m / 2 ^ s % 2) := by
        rw [Nat.pow_succ, Nat.mod_mul]
      have hbit := Nat.mod_two_eq_zero_or_one (m / 2 ^ s)
      rw [shift_succ, ExtendedMantissa.shiftRightOne, hmod, Nat.pow_succ, ← Nat.div_div_eq_div_mul]
      refine ⟨by rw [hmantissa], ?_, ?_⟩
      · rw [hmantissa]
        rcases hbit with hbit | hbit <;> simp [hbit] <;> omega
      · simp only [Bool.or_eq_true, hround, hsticky]
        rcases hbit with hbit | hbit <;> simp only [hbit] <;> omega

theorem roundedMantissa_shift (m s : Nat) :
    (ExtendedMantissa.ofMantissaAndAccuracy m .exact >>> s).roundedMantissa =
      nearest m (2 ^ s) := by
  obtain ⟨hmantissa, hround, hsticky⟩ := shift_exact m s
  have hlt := Nat.mod_lt m (Nat.two_pow_pos s)
  generalize ExtendedMantissa.ofMantissaAndAccuracy m .exact >>> s = em at *
  obtain ⟨mantissa, round, sticky⟩ := em
  simp only at hmantissa hround hsticky
  rw [nearest, ExtendedMantissa.roundedMantissa, hmantissa]
  cases round with
  | false =>
      have hlow : 2 * (m % 2 ^ s) < 2 ^ s := by simpa using hround
      rw [if_pos hlow]
      cases sticky <;> rfl
  | true =>
      have hhigh : 2 ^ s ≤ 2 * (m % 2 ^ s) := by simpa using hround
      rw [if_neg (Nat.not_lt.2 hhigh)]
      cases sticky with
      | false =>
          have htie : 2 * (m % 2 ^ s) = 2 ^ s := by
            have := Nat.two_pow_pos s
            simp only [Bool.false_eq_true, false_iff, not_and, not_not] at hsticky
            apply hsticky
            omega
          rw [if_pos htie]
          rfl
      | true =>
          rw [if_neg (hsticky.1 rfl).2]
          rfl

/-! ## To a mantissa of 53 bits -/

theorem targetExponent_eq {m s : Nat} {e : Int} (hm : m.log2 = 52 + s) (he : -1074 ≤ e + s) :
    Format.binary64.targetExponent (totalExponent m e) = e + s := by
  rw [Format.targetExponent, totalExponent, hm]
  simp only [Format.minExponent, Format.mantissaBits]
  omega

theorem shiftToTargetExponent_eq {m s : Nat} {e : Int} (hm : m.log2 = 52 + s)
    (he : -1074 ≤ e + s) (accuracy : Accuracy) :
    shiftToTargetExponent .binary64 m e accuracy =
      (ExtendedMantissa.ofMantissaAndAccuracy m accuracy >>> s, e + s) := by
  have hshift : (e + s - e).toNat = s := by omega
  rw [shiftToTargetExponent, targetExponent_eq hm he, shiftToExponent, hshift]

theorem log2_mantissa {m : Nat} (hlow : 2 ^ 52 ≤ m) (hhigh : m < 2 ^ 53) : m.log2 = 52 :=
  (Nat.log2_eq_iff (by omega)).2 ⟨hlow, hhigh⟩

theorem nearest_bounds {m s : Nat} (hm : m.log2 = 52 + s) :
    2 ^ 52 ≤ nearest m (2 ^ s) ∧ nearest m (2 ^ s) ≤ 2 ^ 53 := by
  have hpos := Nat.two_pow_pos s
  have hne : m ≠ 0 := by
    rintro rfl
    rw [Nat.log2_zero] at hm
    omega
  obtain ⟨hlow, hhigh⟩ := (Nat.log2_eq_iff hne).1 hm
  rw [Nat.pow_add] at hlow
  rw [Nat.add_right_comm, Nat.pow_add] at hhigh
  exact ⟨le_nearest hpos hlow, nearest_le hpos hhigh.le⟩

theorem round_eq {m s t : Nat} {e : Int} (hm : m.log2 = 52 + s) (he : -1074 ≤ e + s)
    (hagain : (nearest m (2 ^ s)).log2 = 52 + t) (sign : Sign) :
    ∃ hpos, roundWithAccuracy .binary64 sign m e .exact =
      .finite sign (nearest m (2 ^ s) / 2 ^ t) (e + s + t) hpos := by
  have hmantissa := (shift_exact (nearest m (2 ^ s)) t).1
  have hpos : 0 < nearest m (2 ^ s) / 2 ^ t := by
    have hlow := (nearest_bounds hm).1
    have hle := ((Nat.log2_eq_iff (by omega)).1 hagain).1
    rw [Nat.pow_add] at hle
    exact Nat.div_pos (le_trans (Nat.le_mul_of_pos_left _ (by decide)) hle) (Nat.two_pow_pos t)
  refine ⟨hpos, ?_⟩
  simp only [roundWithAccuracy, shiftToTargetExponent_eq hm he, roundedMantissa_shift]
  simp only [shiftToTargetExponent_eq hagain (show -1074 ≤ e + s + (t : Int) by omega), hmantissa]
  rw [dif_neg (Nat.pos_iff_ne_zero.1 hpos)]

theorem round_of_lt {m s : Nat} {e : Int} (hm : m.log2 = 52 + s) (he : -1074 ≤ e + s)
    (hlt : nearest m (2 ^ s) < 2 ^ 53) (sign : Sign) :
    ∃ hpos, roundWithAccuracy .binary64 sign m e .exact =
      .finite sign (nearest m (2 ^ s)) (e + s) hpos := by
  have hlog : (nearest m (2 ^ s)).log2 = 52 + 0 := log2_mantissa (nearest_bounds hm).1 hlt
  obtain ⟨hpos, hround⟩ := round_eq hm he hlog sign
  simp only [Nat.pow_zero, Nat.div_one, Int.natCast_zero, Int.add_zero] at hpos hround
  exact ⟨hpos, hround⟩

theorem round_of_carry {m s : Nat} {e : Int} (hm : m.log2 = 52 + s) (he : -1074 ≤ e + s)
    (heq : nearest m (2 ^ s) = 2 ^ 53) (sign : Sign) :
    ∃ hpos, roundWithAccuracy .binary64 sign m e .exact =
      .finite sign (2 ^ 52) (e + s + 1) hpos := by
  have hlog : (nearest m (2 ^ s)).log2 = 52 + 1 := by rw [heq, Nat.log2_two_pow]
  obtain ⟨hpos, hround⟩ := round_eq hm he hlog sign
  simp only [heq] at hpos hround
  exact ⟨hpos, hround⟩

end FileChores.Number
