import Mathlib
import FileChores.Number

/-!
# The order of numbers

Each double but a NaN has a rank, and doubles are compared by their ranks. A rank is a list: first
the kind of the number, from minus infinity to infinity, then, within the finite numbers of one
sign, the exponent and the mantissa.
-/

open Float.Model Float.Model.UnpackedFloat

namespace FileChores.Number

def unpackedRank? : UnpackedFloat → Option (List Int)
  | notANumber => none
  | infinity .negative => some [-2]
  | finite .negative mantissa exponent _ => some [-1, -exponent, -mantissa]
  | zero _ => some [0]
  | finite .positive mantissa exponent _ => some [1, exponent, mantissa]
  | infinity .positive => some [2]

/-- The place of a number among all numbers; both zeros have one place, a NaN has none. -/
def rank? (x : Float) : Option (List Int) :=
  unpackedRank? x.toModel.unpack

theorem rank?_eq_none_iff {x : Float} : rank? x = none ↔ x.isNaN = true := by
  show unpackedRank? x.toModel.unpack = none ↔ x.toModel.unpack.isNaN = true
  cases x.toModel.unpack with
  | notANumber => simp [unpackedRank?, UnpackedFloat.isNaN]
  | zero s => simp [unpackedRank?, UnpackedFloat.isNaN]
  | infinity s => cases s <;> simp [unpackedRank?, UnpackedFloat.isNaN]
  | finite s m e => cases s <;> simp [unpackedRank?, UnpackedFloat.isNaN]

theorem exists_rank_of_not_isNaN {x : Float} (hx : x.isNaN = false) : ∃ p, rank? x = some p := by
  rw [← Option.ne_none_iff_exists']
  intro h
  rw [rank?_eq_none_iff.1 h] at hx
  exact absurd hx (by decide)

section

variable (e e' : Int) (m m' : Nat)

theorem compare_natCast : compare (m : Int) m' = compare m m' := by
  simp only [Int.compare_eq_ite_lt, Nat.compare_eq_ite_lt, Int.ofNat_lt]

theorem compare_neg : compare (-e) (-e') = (compare e e').swap := by
  rw [Int.compare_swap]
  simp only [Int.compare_eq_ite_lt, Int.neg_lt_neg_iff]

theorem compare_positive :
    compare [1, e, (m : Int)] [1, e', (m' : Int)] = (compare e e').then (compare m m') := by
  simp only [List.compare_cons_cons, compare_natCast, List.compare_nil_nil]
  cases compare e e' <;> cases compare m m' <;> rfl

theorem compare_negative :
    compare [-1, -e, -(m : Int)] [-1, -e', -(m' : Int)] =
      ((compare e e').then (compare m m')).swap := by
  simp only [List.compare_cons_cons, compare_neg, compare_natCast, List.compare_nil_nil]
  cases compare e e' <;> cases compare m m' <;> rfl

end

theorem compare_eq_ranks (a b : UnpackedFloat) :
    a.compare b =
      (unpackedRank? a).bind fun p => (unpackedRank? b).map fun q => compare p q := by
  cases a with
  | notANumber => rfl
  | zero s =>
    cases b with
    | notANumber | zero => rfl
    | infinity s' | finite s' => cases s' <;> rfl
  | infinity s =>
    cases b with
    | notANumber | zero => cases s <;> rfl
    | infinity s' | finite s' => cases s <;> cases s' <;> rfl
  | finite s m e =>
    cases b with
    | notANumber | zero => cases s <;> rfl
    | infinity s' => cases s <;> cases s' <;> rfl
    | finite s' m' e' =>
      cases s <;> cases s'
      · exact congrArg some (compare_negative e e' m m').symm
      · rfl
      · rfl
      · exact congrArg some (compare_positive e e' m m').symm

/-! ## The three tests of two numbers -/

section

variable {x y : Float} {p q : List Int}

theorem lt_iff_compare : x < y ↔ x.toModel.unpack.compare y.toModel.unpack = some .lt := by
  have hunpack : x < y ↔ x.toModel.unpack.lt y.toModel.unpack = true := decide_eq_true_iff
  rw [hunpack, UnpackedFloat.lt, beq_iff_eq]

theorem beq_iff_compare :
    (x == y) = true ↔ x.toModel.unpack.compare y.toModel.unpack = some .eq := by
  have hunpack : (x == y) = true ↔ x.toModel.unpack.beq y.toModel.unpack = true := Iff.rfl
  rw [hunpack, UnpackedFloat.beq, beq_iff_eq]

theorem compare_of_ranks (hx : rank? x = some p) (hy : rank? y = some q) :
    x.toModel.unpack.compare y.toModel.unpack = some (compare p q) := by
  rw [rank?] at hx hy
  rw [compare_eq_ranks, hx, hy]
  rfl

theorem lt_iff_of_ranks (hx : rank? x = some p) (hy : rank? y = some q) :
    x < y ↔ compare p q = .lt := by
  rw [lt_iff_compare, compare_of_ranks hx hy, Option.some_inj]

theorem beq_iff_of_ranks (hx : rank? x = some p) (hy : rank? y = some q) :
    (x == y) = true ↔ compare p q = .eq := by
  rw [beq_iff_compare, compare_of_ranks hx hy, Option.some_inj]

theorem compare_of_isNaN (h : x.isNaN = true ∨ y.isNaN = true) :
    x.toModel.unpack.compare y.toModel.unpack = none := by
  rcases h with h | h <;> rw [← rank?_eq_none_iff, rank?] at h <;> rw [compare_eq_ranks, h]
  · rfl
  · cases unpackedRank? x.toModel.unpack <;> rfl

end

end FileChores.Number
