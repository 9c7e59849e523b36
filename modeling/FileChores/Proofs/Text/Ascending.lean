import Mathlib.Data.List.Nodup
import FileChores.Proofs.Text.ByteOrder

/-!
# Ascending lists

A list that ascends by the bytes of its keys holds each key once and is known by its members: it is
what sorting makes of them, in whatever order they are given.
-/

namespace FileChores.Text

variable {α : Type} (key : α → String)

/-- From one member to the next the bytes of the key ascend. -/
def Ascending (l : List α) : Prop :=
  l.Pairwise fun a b => List.Lex (· < ·) (bytes (key a)) (bytes (key b))

def sortBy (l : List α) : List α :=
  l.mergeSort fun a b => key a ≤ key b

theorem perm_sortBy (l : List α) : (sortBy key l).Perm l :=
  List.mergeSort_perm l _

theorem pairwise_sortBy (l : List α) : (sortBy key l).Pairwise fun a b => key a ≤ key b := by
  have htrans (a b c : α) (hab : decide (key a ≤ key b) = true)
      (hbc : decide (key b ≤ key c) = true) : decide (key a ≤ key c) = true :=
    decide_eq_true (le_trans (of_decide_eq_true hab) (of_decide_eq_true hbc))
  have htotal (a b : α) : (decide (key a ≤ key b) || decide (key b ≤ key a)) = true := by
    simpa using le_total (key a) (key b)
  exact (List.pairwise_mergeSort htrans htotal l).imp of_decide_eq_true

variable {key} {l l' : List α}

theorem ascending_iff_lt : Ascending key l ↔ l.Pairwise fun a b => key a < key b := by
  simp only [Ascending, lex_bytes_iff]

theorem ascending_iff_compare :
    Ascending key l ↔ l.Pairwise fun a b => compare (key a) (key b) = .lt := by
  have hcompare (s t : String) : compare s t = .lt ↔ s < t := compareOfLessAndEq_eq_lt
  simp only [ascending_iff_lt, hcompare]

namespace Ascending

theorem nodup_keys (h : Ascending key l) : (l.map key).Nodup :=
  List.pairwise_map.2 ((ascending_iff_lt.1 h).imp ne_of_lt)

theorem sortBy_eq (h : Ascending key l) (hperm : l'.Perm l) : sortBy key l' = l := by
  have hle : l.Pairwise fun a b => key a ≤ key b := (ascending_iff_lt.1 h).imp le_of_lt
  refine List.Perm.eq_of_pairwise (fun a b ha hb hab hba => ?_) (pairwise_sortBy key l') hle
    ((perm_sortBy key l').trans hperm)
  have ha : a ∈ l := hperm.mem_iff.1 ((perm_sortBy key l').mem_iff.1 ha)
  exact List.inj_on_of_nodup_map h.nodup_keys ha hb (le_antisymm hab hba)

theorem sortBy_eq_of_mem_iff (h : Ascending key l) (hkeys : (l'.map key).Nodup)
    (hmem : ∀ a, a ∈ l' ↔ a ∈ l) : sortBy key l' = l :=
  h.sortBy_eq <|
    (List.perm_ext_iff_of_nodup (List.Nodup.of_map key hkeys)
      (List.Nodup.of_map key h.nodup_keys)).2 hmem

end Ascending

end FileChores.Text
