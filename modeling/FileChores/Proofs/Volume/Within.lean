import FileChores.Proofs.Volume.Tree
import FileChores.Volume.Measure

/-!
# What a directory holds

The names in a directory are those of its entries, each once. From a directory its entries are
reached, and those of the directories among them, and so on; no link is followed on the way. In a
tree these are all the entries below it.
-/

namespace FileChores.Volume

variable {v : Volume}

theorem mem_toList_iff {name : String} {parent : Place} {entry : Entry} :
    (name :: parent, entry) ∈ v.entries.toList ↔ v.entry? (name :: parent) = some entry :=
  Std.ExtTreeMap.mem_toList_iff_getElem?_eq_some

theorem mem_names_iff {place : Place} {name : String} :
    name ∈ v.names place ↔ v.entry? (name :: place) ≠ none := by
  constructor
  · intro h
    obtain ⟨entry, hentry⟩ := exists_of_mem_names h
    rw [mem_toList_iff.1 hentry]
    exact Option.some_ne_none entry
  · intro h
    obtain ⟨entry, hentry⟩ := Option.ne_none_iff_exists'.1 h
    exact List.mem_filterMap.2 ⟨(name :: place, entry), mem_toList_iff.2 hentry, if_pos rfl⟩

theorem nodup_names (place : Place) : (v.names place).Nodup := by
  have hkeys := Std.ExtTreeMap.distinct_keys_toList (t := v.entries)
  refine List.Pairwise.filterMap _ ?_ hkeys
  rintro ⟨_ | ⟨name, parent⟩, entry⟩ ⟨_ | ⟨name', parent'⟩, entry'⟩ hne first hfirst second hsecond
  all_goals
    simp only [Option.ite_none_right_eq_some, Option.some.injEq, reduceCtorEq] at hfirst hsecond
  obtain ⟨rfl, rfl⟩ := hfirst
  obtain ⟨rfl, rfl⟩ := hsecond
  rintro rfl
  exact hne Std.ReflCmp.compare_self

/-- From `root` an entry is reached through directories alone. -/
inductive Within (v : Volume) (root : Place) : Place → Prop
  | root : Within v root root
  | entry {directory : Place} {name : String} : Within v root directory →
      v.entry? directory = some .directory → v.entry? (name :: directory) ≠ none →
      Within v root (name :: directory)

namespace Within

variable {root place : Place}

theorem isSuffix (h : v.Within root place) : root <:+ place := by
  induction h with
  | root => exact List.suffix_refl root
  | entry _ _ _ ih => exact ih.trans (List.suffix_cons _ _)

theorem of_entry {name : String} (hroot : v.entry? root = some .directory)
    (hname : v.entry? (name :: root) ≠ none) (h : v.Within (name :: root) place) :
    v.Within root place := by
  induction h with
  | root => exact .entry .root hroot hname
  | entry _ hdirectory hentry ih => exact .entry ih hdirectory hentry

theorem cases_entry (h : v.Within root place) :
    place = root ∨ v.entry? root = some .directory ∧
      ∃ name, v.entry? (name :: root) ≠ none ∧ v.Within (name :: root) place := by
  induction h with
  | root => exact .inl rfl
  | @entry directory name _ hdirectory hentry ih =>
      rcases ih with rfl | ⟨hroot, first, hfirst, hwithin⟩
      · exact .inr ⟨hdirectory, name, hentry, .root⟩
      · exact .inr ⟨hroot, first, hfirst, .entry hwithin hdirectory hentry⟩

theorem entry?_ne_none (hroot : v.entry? root ≠ none) (h : v.Within root place) :
    v.entry? place ≠ none := by
  cases h with
  | root => exact hroot
  | entry _ _ hentry => exact hentry

end Within

theorem WellFormed.entry?_of_isSuffix (hv : v.WellFormed) {outer place : Place}
    (h : v.entry? place ≠ none) (hsuffix : outer <:+ place) (hne : outer ≠ place) :
    v.entry? outer = some .directory := by
  induction place with
  | nil => exact absurd (List.suffix_nil.1 hsuffix) hne
  | cons name parent ih =>
      have hparent := hv.parent name parent h
      rcases List.suffix_cons_iff.1 hsuffix with rfl | hsuffix
      · exact absurd rfl hne
      · by_cases heq : outer = parent
        · rw [heq, hparent]
        · exact ih (by rw [hparent]; exact Option.some_ne_none _) hsuffix heq

theorem WellFormed.directory_of_isSuffix (hv : v.WellFormed) {outer place : Place}
    (h : v.entry? place = some .directory) (hsuffix : outer <:+ place) :
    v.entry? outer = some .directory := by
  by_cases heq : outer = place
  · rw [heq, h]
  · exact hv.entry?_of_isSuffix (by rw [h]; exact Option.some_ne_none _) hsuffix heq

theorem WellFormed.within_iff (hv : v.WellFormed) {root : Place} (hroot : v.entry? root ≠ none)
    {place : Place} : v.Within root place ↔ root <:+ place ∧ v.entry? place ≠ none := by
  refine ⟨fun h => ⟨h.isSuffix, h.entry?_ne_none hroot⟩, ?_⟩
  rintro ⟨hsuffix, hentry⟩
  induction place with
  | nil =>
      obtain rfl := List.suffix_nil.1 hsuffix
      exact .root
  | cons name parent ih =>
      have hparent := hv.parent name parent hentry
      rcases List.suffix_cons_iff.1 hsuffix with rfl | hsuffix
      · exact .root
      · exact .entry (ih hsuffix (by rw [hparent]; exact Option.some_ne_none _)) hparent hentry

end FileChores.Volume
