import Mathlib.Order.RelClasses
import FileChores.Value
import FileChores.Proofs.Number.Order
import FileChores.Proofs.Text.ByteOrder

/-!
# The laws of comparison

Two values stand in exactly one of three ways to each other, unless one of two numbers is a NaN.
Texts are totally ordered by their characters, numbers by their size up to equality, and a number
meets a text as a text.
-/

namespace FileChores

namespace Value

/-- Whether both values are numbers and one of them is a NaN. -/
def unordered : Value → Value → Bool
  | number x, number y => x.isNaN || y.isNaN
  | _, _ => false

theorem unordered_symm (a b : Value) : b.unordered a = a.unordered b := by
  cases a <;> cases b <;> simp [unordered, Bool.or_comm]

theorem order?_of_ranks {x y : Float} {p q : List Int} (hx : Number.rank? x = some p)
    (hy : Number.rank? y = some q) : (number x).order? (number y) = some (compare p q) := by
  have hyx : y < x ↔ compare p q = .gt := by
    rw [Number.lt_iff_of_ranks hy hx, Std.OrientedCmp.gt_iff_lt]
  rw [order?]
  simp only [Number.lt_iff_of_ranks hx hy, Number.beq_iff_of_ranks hx hy, hyx]
  cases compare p q <;> rfl

theorem order?_of_unordered {a b : Value} (h : a.unordered b = true) : a.order? b = none := by
  cases a with
  | text s => exact absurd h Bool.false_ne_true
  | number x =>
    cases b with
    | text t => exact absurd h Bool.false_ne_true
    | number y =>
      have hnan : x.isNaN = true ∨ y.isNaN = true := Bool.or_eq_true_iff.1 h
      rw [order?]
      simp only [Number.lt_iff_compare, Number.beq_iff_compare, Number.compare_of_isNaN hnan,
        Number.compare_of_isNaN hnan.symm]
      rfl

theorem order?_of_ordered {a b : Value} (h : a.unordered b = false) :
    ∃ o, a.order? b = some o ∧ b.order? a = some o.swap := by
  have htexts : ∃ o, some (compare a.toText b.toText) = some o ∧
      some (compare b.toText a.toText) = some o.swap :=
    ⟨_, rfl, congrArg some Std.OrientedOrd.eq_swap⟩
  cases a with
  | text s => cases b <;> exact htexts
  | number x =>
    cases b with
    | text t => exact htexts
    | number y =>
      obtain ⟨hx, hy⟩ : x.isNaN = false ∧ y.isNaN = false := Bool.or_eq_false_iff.1 h
      obtain ⟨p, hp⟩ := Number.exists_rank_of_not_isNaN hx
      obtain ⟨q, hq⟩ := Number.exists_rank_of_not_isNaN hy
      refine ⟨compare p q, order?_of_ranks hp hq, ?_⟩
      rw [order?_of_ranks hq hp, Std.OrientedOrd.eq_swap]

theorem order?_swap (a b : Value) : b.order? a = (a.order? b).map Ordering.swap := by
  cases h : a.unordered b with
  | true =>
    rw [order?_of_unordered h, order?_of_unordered ((unordered_symm a b).trans h)]
    rfl
  | false =>
    obtain ⟨o, hab, hba⟩ := order?_of_ordered h
    rw [hab, hba]
    rfl

end Value

namespace Comparison

open Value

theorem less_eq_greater (a b : Value) : less.holds a b = greater.holds b a := by
  rw [holds, holds, order?_swap a b]
  rcases a.order? b with _ | o
  · rfl
  · cases o <;> rfl

theorem equal_symm (a b : Value) : equal.holds a b = equal.holds b a := by
  rw [holds, holds, order?_swap a b]
  rcases a.order? b with _ | o
  · rfl
  · cases o <;> rfl

theorem notEqual_eq_not_equal (a b : Value) : notEqual.holds a b = !equal.holds a b :=
  rfl

theorem not_holds_of_unordered {a b : Value} (h : a.unordered b = true) {op : Comparison}
    (hop : op ≠ notEqual) : op.holds a b = false := by
  cases op with
  | notEqual => exact absurd rfl hop
  | less | equal | greater =>
    rw [holds, order?_of_unordered h]
    rfl

def ofOrdering : Ordering → Comparison
  | .lt => less
  | .eq => equal
  | .gt => greater

theorem existsUnique_holds {a b : Value} (h : a.unordered b = false) :
    ∃! op : Comparison, op ≠ notEqual ∧ op.holds a b = true := by
  obtain ⟨o, ho, -⟩ := order?_of_ordered h
  refine ⟨ofOrdering o, ?_, ?_⟩
  · cases o <;> simp [ofOrdering, holds, ho]
  · rintro op ⟨hop, hholds⟩
    cases op with
    | notEqual => exact absurd rfl hop
    | less | equal | greater =>
      rw [holds, ho, beq_iff_eq, Option.some_inj] at hholds
      rw [hholds]
      rfl

/-! ## Texts -/

theorem less_text_iff {s t : String} : less.holds (text s) (text t) = true ↔ s < t := by
  show (some (compare s t) == some .lt) = true ↔ s < t
  rw [beq_iff_eq, Option.some_inj]
  exact compareOfLessAndEq_eq_lt

theorem equal_text_iff {s t : String} : equal.holds (text s) (text t) = true ↔ s = t := by
  show (some (compare s t) == some .eq) = true ↔ s = t
  rw [beq_iff_eq, Option.some_inj]
  exact Std.compare_eq_iff_eq

theorem isStrictTotalOrder_less_text :
    IsStrictTotalOrder String fun s t => less.holds (text s) (text t) = true := by
  have h : (fun s t => less.holds (text s) (text t) = true) = ((· < ·) : String → String → Prop) :=
    funext fun s => funext fun t => propext less_text_iff
  rw [h]
  infer_instance

/-! ## Numbers -/

section

variable {x y : Float} {p q : List Int}

theorem less_number_iff (hx : Number.rank? x = some p) (hy : Number.rank? y = some q) :
    less.holds (number x) (number y) = true ↔ compare p q = .lt := by
  rw [holds, order?_of_ranks hx hy, beq_iff_eq, Option.some_inj]

theorem equal_number_iff (hx : Number.rank? x = some p) (hy : Number.rank? y = some q) :
    equal.holds (number x) (number y) = true ↔ p = q := by
  rw [holds, order?_of_ranks hx hy, beq_iff_eq, Option.some_inj, Std.compare_eq_iff_eq]

theorem tie_iff_equal (hx : x.isNaN = false) (hy : y.isNaN = false) :
    ¬ less.holds (number x) (number y) = true ∧ ¬ less.holds (number y) (number x) = true ↔
      equal.holds (number x) (number y) = true := by
  obtain ⟨p, hp⟩ := Number.exists_rank_of_not_isNaN hx
  obtain ⟨q, hq⟩ := Number.exists_rank_of_not_isNaN hy
  have hgt : compare q p = .lt ↔ compare p q = .gt := Std.OrientedCmp.gt_iff_lt.symm
  have heq : p = q ↔ compare p q = .eq := Std.compare_eq_iff_eq.symm
  rw [less_number_iff hp hq, less_number_iff hq hp, equal_number_iff hp hq, hgt, heq]
  cases compare p q <;> decide

theorem isStrictWeakOrder_less_number :
    IsStrictWeakOrder {x : Float // x.isNaN = false}
      fun x y => less.holds (number x) (number y) = true where
  irrefl := by
    rintro ⟨x, hx⟩
    obtain ⟨p, hp⟩ := Number.exists_rank_of_not_isNaN hx
    intro hlt
    rw [less_number_iff hp hp, Std.compare_eq_iff_eq.2 rfl] at hlt
    exact absurd hlt (by decide)
  trans := by
    rintro ⟨x, hx⟩ ⟨y, hy⟩ ⟨z, hz⟩ hxy hyz
    obtain ⟨p, hp⟩ := Number.exists_rank_of_not_isNaN hx
    obtain ⟨q, hq⟩ := Number.exists_rank_of_not_isNaN hy
    obtain ⟨r, hr⟩ := Number.exists_rank_of_not_isNaN hz
    rw [less_number_iff hp hr]
    exact Std.TransCmp.lt_trans ((less_number_iff hp hq).1 hxy) ((less_number_iff hq hr).1 hyz)
  incomp_trans := by
    rintro ⟨x, hx⟩ ⟨y, hy⟩ ⟨z, hz⟩ hxy hyz
    obtain ⟨p, hp⟩ := Number.exists_rank_of_not_isNaN hx
    obtain ⟨q, hq⟩ := Number.exists_rank_of_not_isNaN hy
    obtain ⟨r, hr⟩ := Number.exists_rank_of_not_isNaN hz
    have hpq : p = q := (equal_number_iff hp hq).1 ((tie_iff_equal hx hy).1 hxy)
    have hqr : q = r := (equal_number_iff hq hr).1 ((tie_iff_equal hy hz).1 hyz)
    exact (tie_iff_equal hx hz).2 ((equal_number_iff hp hr).2 (hpq.trans hqr))

end

/-! ## All values -/

/-- What comparing two values comes to. In this order: `!=` is what `==` is not; `<` is `>` the
other way round, and `==` does not tell its sides apart; just one of `<`, `==`, `>` holds, unless
one of two numbers is a NaN, when none does; texts are totally ordered, by the scalar values of
their characters and by their UTF-8 bytes alike, and equal only to themselves; numbers other than
NaN are weakly ordered, with equality for ties; a number and a text are compared as two texts. -/
theorem comparison_laws :
    (∀ a b : Value, notEqual.holds a b = !equal.holds a b) ∧
    (∀ a b : Value, less.holds a b = greater.holds b a ∧ equal.holds a b = equal.holds b a) ∧
    (∀ a b : Value,
      if a.unordered b then
        less.holds a b = false ∧ equal.holds a b = false ∧ greater.holds a b = false
      else ∃! op : Comparison, op ≠ notEqual ∧ op.holds a b = true) ∧
    (IsStrictTotalOrder String (fun s t => less.holds (text s) (text t) = true) ∧
      ∀ s t : String,
        (less.holds (text s) (text t) = true ↔
          List.Lex (· < ·) (Text.scalars s) (Text.scalars t)) ∧
        (less.holds (text s) (text t) = true ↔ List.Lex (· < ·) (Text.bytes s) (Text.bytes t)) ∧
        (equal.holds (text s) (text t) = true ↔ s = t)) ∧
    (IsStrictWeakOrder {x : Float // x.isNaN = false}
        (fun x y => less.holds (number x) (number y) = true) ∧
      ∀ x y : {x : Float // x.isNaN = false},
        ¬ less.holds (number x) (number y) = true ∧ ¬ less.holds (number y) (number x) = true ↔
          equal.holds (number x) (number y) = true) ∧
    ∀ (op : Comparison) (x : Float) (s : String),
      op.holds (number x) (text s) = op.holds (text (number x).toText) (text s) ∧
      op.holds (text s) (number x) = op.holds (text s) (text (number x).toText) := by
  refine ⟨notEqual_eq_not_equal, fun a b => ⟨less_eq_greater a b, equal_symm a b⟩, fun a b => ?_,
    ⟨isStrictTotalOrder_less_text, fun s t => ⟨?_, ?_, equal_text_iff⟩⟩,
    ⟨isStrictWeakOrder_less_number, fun x y => tie_iff_equal x.2 y.2⟩, fun op x s => ⟨?_, ?_⟩⟩
  · split
    · next h =>
      exact ⟨not_holds_of_unordered h (by decide), not_holds_of_unordered h (by decide),
        not_holds_of_unordered h (by decide)⟩
    · next h => exact existsUnique_holds ((Bool.not_eq_true _).mp h)
  · rw [less_text_iff, Text.lex_scalars_iff]
  · rw [less_text_iff, Text.lex_bytes_iff]
  · cases op <;> rfl
  · cases op <;> rfl

example : less.holds (number 9) (number 10) = true ∧ less.holds (number 9) (text "10") = false ∧
    greater.holds (number (0 / 0)) (text "10") = true := by decide

end Comparison
end FileChores
