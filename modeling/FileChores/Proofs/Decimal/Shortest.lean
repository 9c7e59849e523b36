import FileChores.Decimal.Shortest
import Mathlib.Tactic.Linarith
import Mathlib.Tactic.Ring

/-!
# Shortest decimals of whole numbers

Where a number has no fraction its shortest decimal has none either, and it lies between the ends of
the interval that rounds to the number.
-/

namespace FileChores.Decimal

namespace Span

theorem holds_of_multiple? {span : Span} {grid c : Nat} (h : span.multiple? grid = some c) :
    span.holds (c * grid) = true := by
  rw [multiple?] at h
  split at h
  · next hlower hupper =>
    split at h <;> cases h
    · exact hupper
    · exact hlower
  · next hlower _ =>
    cases h
    exact hlower
  · next _ hupper =>
    cases h
    exact hupper
  · cases h

theorem multiple?_ne_none {span : Span} {grid : Nat} (hgrid : grid ∣ span.value)
    (hholds : span.holds span.value = true) : span.multiple? grid ≠ none := by
  have hlower : span.holds (span.value / grid * grid) = true := by
    rw [Nat.div_mul_cancel hgrid, hholds]
  rw [multiple?, hlower]
  cases span.holds ((span.value / grid + 1) * grid) with
  | true =>
      simp only
      split <;> simp
  | false => simp

/-- What the search finds stands for the value, and is no finer than a grid that it passes and that
the value lies on. -/
theorem coarsest_holds {span : Span} {unit places n : Nat}
    (hgrid : unit * 10 ^ places ∣ span.value) (hle : places ≤ n)
    (hholds : span.holds span.value = true) :
    ∃ c j, span.coarsest unit n = ⟨c, (j : Nat)⟩ ∧ places ≤ j ∧
      span.holds (c * 10 ^ j * unit) = true := by
  induction n with
  | zero =>
      refine ⟨span.value / unit, 0, rfl, hle, ?_⟩
      rw [Nat.pow_zero, Nat.mul_one, Nat.div_mul_cancel (dvd_trans (Nat.dvd_mul_right _ _) hgrid)]
      exact hholds
  | succ n ih =>
      unfold coarsest
      cases hmultiple : span.multiple? (unit * Nat.pow 10 (n + 1)) with
      | some c =>
          refine ⟨c, n + 1, rfl, hle, ?_⟩
          have := holds_of_multiple? hmultiple
          rwa [Nat.pow_eq, Nat.mul_comm unit, ← Nat.mul_assoc] at this
      | none =>
          apply ih
          refine Nat.le_of_lt_succ (Nat.lt_of_le_of_ne hle ?_)
          rintro rfl
          exact multiple?_ne_none hgrid hholds hmultiple

end Span

/-- How many quarters of the last binary place the interval reaches below a mantissa. -/
def reach (lowest mantissa : Nat) : Nat := if mantissa = lowest then 1 else 2

theorem reach_self (lowest : Nat) : reach lowest lowest = 1 := if_pos rfl

theorem reach_of_ne {lowest mantissa : Nat} (h : mantissa ≠ lowest) : reach lowest mantissa = 2 :=
  if_neg h

theorem reach_eq_one_or_two (lowest mantissa : Nat) :
    reach lowest mantissa = 1 ∨ reach lowest mantissa = 2 := by
  by_cases h : mantissa = lowest
  · left
    rw [h, reach_self]
  · right
    exact reach_of_ne h

/-- The whole number `n` lies between the ends of the interval that rounds to
`mantissa * 2 ^ exponent`. In units of a quarter of the last binary place. -/
structure Stands (lowest mantissa : Nat) (exponent : Int) (n : Nat) : Prop where
  low : (4 * mantissa - reach lowest mantissa) * 2 ^ exponent.toNat ≤
    4 * n * 2 ^ (-exponent).toNat
  high : 4 * n * 2 ^ (-exponent).toNat ≤ (4 * mantissa + 2) * 2 ^ exponent.toNat
  inside : mantissa % 2 ≠ 0 →
    (4 * mantissa - reach lowest mantissa) * 2 ^ exponent.toNat ≠ 4 * n * 2 ^ (-exponent).toNat ∧
    4 * n * 2 ^ (-exponent).toNat ≠ (4 * mantissa + 2) * 2 ^ exponent.toNat

theorem stands_of_holds {lowest mantissa n : Nat} {exponent : Int}
    (h : (span lowest mantissa exponent).holds
      (4 * n * 2 ^ (-exponent).toNat * 10 ^ (-exponent).toNat) = true) :
    Stands lowest mantissa exponent n := by
  have hpos : 0 < 10 ^ (-exponent).toNat := Nat.pow_pos (by decide)
  simp only [span, Span.holds, Nat.pow_eq, ← Nat.mul_assoc] at h
  split at h
  · next heven =>
    simp only [Bool.and_eq_true, decide_eq_true_eq, Nat.mul_le_mul_right_iff hpos] at h heven
    exact ⟨h.1, h.2, fun hodd => absurd heven hodd⟩
  · simp only [Bool.and_eq_true, decide_eq_true_eq, Nat.mul_lt_mul_right hpos] at h
    exact ⟨h.1.le, h.2.le, fun _ => ⟨h.1.ne, h.2.ne⟩⟩

theorem Stands.ne_zero {lowest mantissa n : Nat} {exponent : Int}
    (h : Stands lowest mantissa exponent n) (hpos : 0 < mantissa) : n ≠ 0 := by
  rintro rfl
  have hlow := h.low
  have hreach := reach_eq_one_or_two lowest mantissa
  have := Nat.mul_pos (show 0 < 4 * mantissa - reach lowest mantissa by omega)
    (Nat.two_pow_pos exponent.toNat)
  omega

theorem holds_value {lowest mantissa : Nat} {exponent : Int} (hpos : 0 < mantissa) :
    (span lowest mantissa exponent).holds (span lowest mantissa exponent).value = true := by
  have hscale : 0 < 2 ^ exponent.toNat * 10 ^ (-exponent).toNat := by positivity
  have hlow : (span lowest mantissa exponent).low < (span lowest mantissa exponent).value := by
    refine Nat.mul_lt_mul_of_pos_right ?_ hscale
    split <;> omega
  have hhigh : (span lowest mantissa exponent).value < (span lowest mantissa exponent).high :=
    Nat.mul_lt_mul_of_pos_right (by omega) hscale
  unfold Span.holds
  split
  · simp [hlow.le, hhigh.le]
  · simp [hlow, hhigh]

theorem le_length_toDigits {n : Nat} (hn : 0 < n) (k : Nat) :
    k ≤ (Nat.toDigits 10 (10 ^ k * n)).length := by
  apply Nat.le_of_not_lt
  intro h
  have hk : 0 < k := Nat.zero_lt_of_lt h
  have hlt := (Nat.length_toDigits_le_iff (by decide) hk).1 h.le
  have := Nat.le_mul_of_pos_right (10 ^ k) hn
  omega

theorem span_value (lowest : Nat) {mantissa w : Nat} {exponent : Int}
    (hw : mantissa = 2 ^ (-exponent).toNat * w) :
    (span lowest mantissa exponent).value =
      4 * 2 ^ (-exponent).toNat * (10 ^ (-exponent).toNat * (w * 2 ^ exponent.toNat)) := by
  simp only [span, Nat.pow_eq]
  rw [hw]
  ring

theorem shortest_whole (lowest : Nat) {mantissa : Nat} {exponent : Int} (hpos : 0 < mantissa)
    (hwhole : 2 ^ (-exponent).toNat ∣ mantissa) :
    ∃ c j, shortest lowest mantissa exponent = ⟨c, (j : Nat)⟩ ∧
      Stands lowest mantissa exponent (c * 10 ^ j) := by
  obtain ⟨w, hw⟩ := hwhole
  have hvalue := span_value lowest hw
  have hdiv : (span lowest mantissa exponent).value / (4 * 2 ^ (-exponent).toNat) =
      10 ^ (-exponent).toNat * (w * 2 ^ exponent.toNat) := by
    rw [hvalue, Nat.mul_div_cancel_left _ (by positivity)]
  have hw' : 0 < w * 2 ^ exponent.toNat :=
    Nat.mul_pos (Nat.pos_of_mul_pos_left (hw ▸ hpos)) (Nat.two_pow_pos _)
  have hgrid : 4 * 2 ^ (-exponent).toNat * 10 ^ (-exponent).toNat ∣
      (span lowest mantissa exponent).value := by
    rw [hvalue, ← Nat.mul_assoc]
    exact Nat.dvd_mul_right _ _
  obtain ⟨c, j, hfound, hle, hholds⟩ :=
    Span.coarsest_holds hgrid (le_length_toDigits hw' _) (holds_value hpos)
  rw [← Nat.sub_add_cancel hle] at hholds
  refine ⟨c, j - (-exponent).toNat, ?_, stands_of_holds ?_⟩
  · simp only [shortest, Nat.pow_eq, hdiv, hfound]
    rw [Int.ofNat_sub hle]
  · rw [← hholds, Nat.pow_add]
    congr 1
    ring

/-! ## Positional text -/

theorem positional_whole (c j : Nat) :
    (positional ⟨c, (j : Nat)⟩).toList = Nat.toDigits 10 c ++ List.replicate j '0' :=
  String.toList_ofList

theorem ofDigitChars_whole (c j : Nat) :
    Nat.ofDigitChars 10 (Nat.toDigits 10 c ++ List.replicate j '0') 0 = c * 10 ^ j := by
  rw [Nat.ofDigitChars_append, Nat.ofDigitChars_ten_toDigits, Nat.ofDigitChars_replicate_zero,
    Nat.mul_comm]

theorem isDigit_whole (c j : Nat) :
    (Nat.toDigits 10 c ++ List.replicate j '0').all Char.isDigit = true := by
  rw [List.all_append, List.all_replicate, Bool.and_eq_true, List.all_eq_true]
  refine ⟨fun digit => Nat.isDigit_of_mem_toDigits (by decide) (by decide), ?_⟩
  split <;> rfl

end FileChores.Decimal
