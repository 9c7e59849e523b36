import FileChores.Proofs.Volume.Within

/-!
# Entries that are moved

A move carries what stands at one place, with everything below it, to another place. It is sound
when neither place lies in the other and nothing is in the way below the target. The entries are
then found at the target, none is left at the source, and all others are where they were.
-/

namespace FileChores

namespace Place

variable {base place : Place}

theorem below?_eq_none_iff : below? base place = none ↔ ¬ base <:+ place := by
  rw [Option.eq_none_iff_forall_ne_some]
  constructor
  · rintro h ⟨inner, hinner⟩
    exact h inner (below?_eq_some_iff.2 hinner.symm)
  · intro h inner hinner
    exact h ⟨inner, (below?_eq_some_iff.1 hinner).symm⟩

theorem isSome_below?_iff : (below? base place).isSome = true ↔ base <:+ place := by
  rw [Option.isSome_iff_ne_none, Ne, below?_eq_none_iff, not_not]

theorem moved_append (source target : Place) (inner : List String) :
    moved source target (inner ++ source) = inner ++ target := by
  unfold moved
  rw [below?_eq_some_iff.2 rfl]

theorem moved_of_not_suffix {source : Place} (h : ¬ source <:+ place) (target : Place) :
    moved source target place = place := by
  unfold moved
  rw [below?_eq_none_iff.2 h]

end Place

namespace Volume

variable {v : Volume} {source target place : Place}

theorem entry?_eq_getElem? (h : place ≠ []) : v.entry? place = v.entries[place]? := by
  cases place with
  | nil => exact absurd rfl h
  | cons name parent => rfl

theorem ne_none_of_mem {entry : Entry} (h : (place, entry) ∈ v.entries.toList) :
    v.entries[place]? ≠ none := by
  rw [Std.ExtTreeMap.mem_toList_iff_getElem?_eq_some.1 h]
  exact Option.some_ne_none entry

inductive Carries (source target : Place) : (old new : Place) → Prop
  | moved (inner : List String) : Carries source target (inner ++ source) (inner ++ target)
  | kept {place : Place} : ¬ source <:+ place → place ≠ target → Carries source target place place

theorem carry_eq_some_iff {old new : Place} {entry entry' : Entry} :
    carry source target (old, entry) = some (new, entry') ↔
      Carries source target old new ∧ entry = entry' := by
  constructor
  · intro h
    simp only [carry] at h
    split at h
    · next inner hinner =>
        cases h
        rw [Place.below?_eq_some_iff.1 hinner]
        exact ⟨.moved inner, rfl⟩
    · next hbelow =>
        split at h
        · cases h
        · next hne =>
            cases h
            exact ⟨.kept (Place.below?_eq_none_iff.1 hbelow) hne, rfl⟩
  · rintro ⟨hcarries, rfl⟩
    cases hcarries with
    | moved inner => simp only [carry, Place.below?_eq_some_iff.2 rfl]
    | kept hbelow hne => simp only [carry, Place.below?_eq_none_iff.2 hbelow, if_neg hne]

structure Graftable (v : Volume) (source target : Place) : Prop where
  target_outside : ¬ source <:+ target
  source_outside : ¬ target <:+ source
  empty : ∀ inner, inner ≠ [] → v.entry? (inner ++ target) = none

namespace Graftable

theorem source_ne_nil (h : v.Graftable source target) : source ≠ [] := by
  rintro rfl
  exact h.target_outside (List.nil_suffix)

theorem target_ne_nil (h : v.Graftable source target) : target ≠ [] := by
  rintro rfl
  exact h.source_outside (List.nil_suffix)

theorem not_both (h : v.Graftable source target) (hsource : source <:+ place) :
    ¬ target <:+ place := fun htarget =>
  (List.suffix_or_suffix_of_suffix hsource htarget).elim h.target_outside h.source_outside

theorem eq_of_carries (h : v.Graftable source target) {old : Place} {inner : List String}
    (hold : v.entries[old]? ≠ none) (hcarries : Carries source target old (inner ++ target)) :
    old = inner ++ source := by
  generalize hnew : inner ++ target = new at hcarries
  cases hcarries with
  | moved inner' => rw [List.append_cancel_right hnew]
  | kept _ hne =>
      subst hnew
      have hinner : inner ≠ [] := fun hnil => hne (by rw [hnil, List.nil_append])
      rw [← entry?_eq_getElem? (List.append_ne_nil_of_right_ne_nil _ h.target_ne_nil)] at hold
      exact absurd (h.empty inner hinner) hold

theorem carries_injective (h : v.Graftable source target) {old old' new : Place}
    (hold : v.entries[old]? ≠ none) (hold' : v.entries[old']? ≠ none)
    (hcarries : Carries source target old new) (hcarries' : Carries source target old' new) :
    old = old' := by
  cases hcarries with
  | moved inner => rw [h.eq_of_carries hold' hcarries']
  | kept hbelow hne =>
      cases hcarries' with
      | moved inner' => exact h.eq_of_carries hold (.kept hbelow hne)
      | kept => rfl

theorem distinct_carried (h : v.Graftable source target) :
    (v.entries.toList.filterMap (carry source target)).Pairwise
      fun a b => ¬ compare a.1 b.1 = .eq := by
  rw [List.pairwise_filterMap]
  refine Std.ExtTreeMap.distinct_keys_toList.imp_of_mem fun {old old'} hold hold' hne => ?_
  rintro ⟨new, entry⟩ hnew ⟨new', entry'⟩ hnew' heq
  obtain ⟨hcarries, -⟩ := carry_eq_some_iff.1 hnew
  obtain ⟨hcarries', -⟩ := carry_eq_some_iff.1 hnew'
  obtain rfl := Std.LawfulEqCmp.eq_of_compare heq
  refine hne ?_
  rw [h.carries_injective (ne_none_of_mem hold) (ne_none_of_mem hold') hcarries hcarries']
  exact Std.ReflCmp.compare_self

/-- What a move leaves at a place is what it carried there. -/
theorem getElem?_graft_eq_some_iff (h : v.Graftable source target) {new : Place} {entry : Entry} :
    (v.graft source target).entries[new]? = some entry ↔
      ∃ old, v.entries[old]? = some entry ∧ Carries source target old new := by
  have hmem {entry : Entry} : (new, entry) ∈ v.entries.toList.filterMap (carry source target) ↔
      ∃ old, v.entries[old]? = some entry ∧ Carries source target old new := by
    simp only [List.mem_filterMap, Prod.exists, carry_eq_some_iff,
      Std.ExtTreeMap.mem_toList_iff_getElem?_eq_some]
    constructor
    · rintro ⟨old, _, hold, hcarries, rfl⟩
      exact ⟨old, hold, hcarries⟩
    · rintro ⟨old, hold, hcarries⟩
      exact ⟨old, entry, hold, hcarries, rfl⟩
  have hfound {entry : Entry} (hentry : (new, entry) ∈
      v.entries.toList.filterMap (carry source target)) :
      (v.graft source target).entries[new]? = some entry :=
    Std.ExtTreeMap.getElem?_ofList_of_mem Std.ReflCmp.compare_self h.distinct_carried hentry
  rw [← hmem]
  refine ⟨fun hentry => ?_, hfound⟩
  by_contra hnone
  have hkey : ¬ new ∈ (v.entries.toList.filterMap (carry source target)).map Prod.fst := by
    intro hkey
    obtain ⟨⟨_, entry'⟩, hentry', rfl⟩ := List.mem_map.1 hkey
    obtain rfl := Option.some.inj ((hfound hentry').symm.trans hentry)
    exact hnone hentry'
  have hcontains : ((v.entries.toList.filterMap (carry source target)).map Prod.fst).contains
      new = false := by simpa using hkey
  cases (Std.ExtTreeMap.getElem?_ofList_of_contains_eq_false hcontains).symm.trans hentry

section

variable (h : v.Graftable source target)

include h

theorem entry?_graft_target (inner : List String) :
    entry? (v.graft source target) (inner ++ target) = v.entry? (inner ++ source) := by
  rw [entry?_eq_getElem? (List.append_ne_nil_of_right_ne_nil _ h.target_ne_nil),
    entry?_eq_getElem? (List.append_ne_nil_of_right_ne_nil _ h.source_ne_nil)]
  ext entry
  rw [h.getElem?_graft_eq_some_iff]
  constructor
  · rintro ⟨old, hold, hcarries⟩
    rwa [← h.eq_of_carries (by rw [hold]; exact Option.some_ne_none _) hcarries]
  · intro hentry
    exact ⟨_, hentry, .moved inner⟩

theorem entry?_graft_source (inner : List String) :
    entry? (v.graft source target) (inner ++ source) = none := by
  rw [entry?_eq_getElem? (List.append_ne_nil_of_right_ne_nil _ h.source_ne_nil)]
  rw [Option.eq_none_iff_forall_ne_some]
  intro entry hentry
  obtain ⟨old, -, hcarries⟩ := h.getElem?_graft_eq_some_iff.1 hentry
  generalize hnew : inner ++ source = new at hcarries
  cases hcarries with
  | moved inner' => exact h.not_both ⟨inner, hnew⟩ (List.suffix_append inner' target)
  | kept hbelow => exact hbelow ⟨inner, hnew⟩

theorem getElem?_graft_other (hsource : ¬ source <:+ place) (htarget : ¬ target <:+ place) :
    (v.graft source target).entries[place]? = v.entries[place]? := by
  ext entry
  rw [h.getElem?_graft_eq_some_iff]
  constructor
  · rintro ⟨old, hold, hcarries⟩
    cases hcarries with
    | moved inner => exact absurd (List.suffix_append inner target) htarget
    | kept => exact hold
  · intro hentry
    refine ⟨place, hentry, .kept hsource ?_⟩
    rintro rfl
    exact htarget (List.suffix_refl _)

end

end Graftable

/-- What stood at the source stands at the target and nowhere else. Nothing but that has changed,
and the target was free or a like entry with nothing below it. -/
structure Relocated (v v' : Volume) (source target : Place) : Prop
    extends v.Graftable source target where
  alike : ∀ entry, v.entry? target = some entry →
    (entry = .directory ↔ v.entry? source = some .directory)
  arrives : ∀ inner, v'.entry? (inner ++ target) = v.entry? (inner ++ source)
  gone : ∀ inner, v'.entry? (inner ++ source) = none
  kept : ∀ place, ¬ source <:+ place → ¬ target <:+ place → v'.entry? place = v.entry? place

theorem Graftable.relocated (h : v.Graftable source target)
    (halike : ∀ entry, v.entry? target = some entry →
      (entry = .directory ↔ v.entry? source = some .directory)) :
    v.Relocated (v.graft source target) source target := by
  refine ⟨h, halike, h.entry?_graft_target, h.entry?_graft_source, fun place hsource htarget => ?_⟩
  cases place with
  | nil => rfl
  | cons name parent => exact h.getElem?_graft_other hsource htarget

/-- What is found after a move has arrived with it or is untouched by it. -/
theorem Relocated.cases_entry {v' : Volume} (hr : v.Relocated v' source target)
    (h : v'.entry? place ≠ none) :
    (∃ inner, place = inner ++ target ∧ v.entry? (inner ++ source) ≠ none) ∨
      ¬ source <:+ place ∧ ¬ target <:+ place ∧ v.entry? place ≠ none := by
  by_cases htarget : target <:+ place
  · obtain ⟨inner, rfl⟩ := htarget
    rw [hr.arrives] at h
    exact .inl ⟨inner, rfl, h⟩
  · have hsource : ¬ source <:+ place := by
      rintro ⟨inner, rfl⟩
      exact h (hr.gone inner)
    rw [hr.kept place hsource htarget] at h
    exact .inr ⟨hsource, htarget, h⟩

/-! ## A moved tree is a tree -/

section

variable {v' : Volume} {name : String} {parent : Place}

theorem Relocated.entry?_parent (hr : v.Relocated v' source (name :: parent))
    (hparent : v.entry? parent = some .directory) : v'.entry? parent = some .directory := by
  rw [hr.kept parent, hparent]
  · intro hsource
    exact hr.target_outside (hsource.trans (List.suffix_cons _ _))
  · intro htarget
    exact absurd htarget.length_le (Nat.not_succ_le_self _)

theorem Relocated.entry?_moved (hr : v.Relocated v' source target)
    (h : v.entry? place = some .directory) :
    v'.entry? (Place.moved source target place) = some .directory := by
  by_cases hsource : source <:+ place
  · obtain ⟨inner, rfl⟩ := hsource
    rw [Place.moved_append, hr.arrives, h]
  rw [Place.moved_of_not_suffix hsource]
  by_cases htarget : target <:+ place
  · obtain ⟨inner, rfl⟩ := htarget
    have hnil : inner = [] := by
      by_contra hne
      cases (hr.empty inner hne).symm.trans h
    subst hnil
    exact (hr.arrives []).trans ((hr.alike _ h).1 rfl)
  · rw [hr.kept place hsource htarget, h]

theorem Relocated.wellFormed (hv : v.WellFormed) (hr : v.Relocated v' source (name :: parent))
    (hparent : v.entry? parent = some .directory)
    (hname : name ≠ "" ∧ name ≠ "." ∧ name ≠ ".." ∧ '/' ∉ name.toList ∧ '\x00' ∉ name.toList)
    (hhome : v'.home = Place.moved source (name :: parent) v.home) : v'.WellFormed := by
  refine ⟨fun other place h => ?_, fun other place h => ?_, ?_⟩
  · rcases hr.cases_entry h with ⟨_ | ⟨first, inner⟩, hplace, hentry⟩ | ⟨hsource, htarget, hentry⟩
    · cases hplace
      exact hr.entry?_parent hparent
    · cases hplace
      rw [← hv.parent other _ hentry]
      exact hr.arrives inner
    · rw [hr.kept place, hv.parent other place hentry]
      · exact fun h => hsource (h.trans (List.suffix_cons _ _))
      · exact fun h => htarget (h.trans (List.suffix_cons _ _))
  · rcases hr.cases_entry h with ⟨_ | ⟨first, inner⟩, hplace, hentry⟩ | ⟨-, -, hentry⟩
    · cases hplace
      exact hname
    · cases hplace
      exact hv.name other _ hentry
    · exact hv.name other place hentry
  · rw [hhome]
    exact hr.entry?_moved hv.home

end

end Volume

end FileChores
