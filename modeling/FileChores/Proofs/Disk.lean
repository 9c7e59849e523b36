import FileChores.Disk
import FileChores.Proofs.Volume.Relocating

/-!
# Writing and removing on a disk

A file is written under all its names, and nothing else changes with it. What is removed is one
name.
-/

namespace FileChores

namespace Volume

variable {v v' : Volume}

/-- The same entries but for the bytes of files. -/
structure SameEntries (v v' : Volume) : Prop where
  home : v'.home = v.home
  entry : ∀ place, v'.entry? place = v.entry? place ∨
    ∃ old content, v.entry? place = some (.file old) ∧ v'.entry? place = some (.file content)

namespace SameEntries

variable (h : v.SameEntries v')

include h

theorem entry?_eq {place : Place} {entry : Entry} (hentry : v.entry? place = some entry)
    (hfile : ∀ content, entry ≠ .file content) : v'.entry? place = some entry := by
  obtain heq | ⟨old, _, hold, -⟩ := h.entry place
  · rw [heq, hentry]
  · exact absurd (Option.some.inj (hentry.symm.trans hold)) (hfile old)

theorem directory {place : Place} (hplace : v.entry? place = some .directory) :
    v'.entry? place = some .directory :=
  h.entry?_eq hplace fun _ h => by cases h

theorem leads {links : Nat} {here : Place} {names : List String} {spot : Spot}
    (hleads : v.Leads links here names spot) : v'.Leads links here names spot := by
  induction hleads with
  | arrived links here => exact .arrived links here
  | stay hdirectory _ ih => exact .stay (h.directory hdirectory) ih
  | up hdirectory _ ih => exact .up (h.directory hdirectory) ih
  | @vacant links here name hdirectory hname hentry =>
      refine .vacant (h.directory hdirectory) hname ?_
      obtain heq | ⟨_, _, hold, -⟩ := h.entry (name :: here)
      · rw [heq, hentry]
      · cases hentry.symm.trans hold
  | link hdirectory hname hentry _ ih =>
      exact .link (h.directory hdirectory) hname (h.entry?_eq hentry fun _ h => by cases h) ih
  | @down links here name entry rest spot hdirectory hname hentry hlink _ ih =>
      obtain heq | ⟨_, content, -, hnew⟩ := h.entry (name :: here)
      · exact .down (h.directory hdirectory) hname (heq.trans hentry) hlink ih
      · exact .down (h.directory hdirectory) hname hnew (fun _ h => by cases h) ih

theorem removable {spelling name : String} {directory : Place}
    (hremovable : v.Removable spelling directory name) :
    v'.Removable spelling directory name := by
  obtain ⟨⟨path, front, hpath, hnames, hslash, hleads⟩, hparent, hname, entry, hentry, hkind⟩ :=
    hremovable
  rw [← h.home] at hleads
  refine ⟨⟨path, front, hpath, hnames, hslash, h.leads hleads⟩, h.directory hparent, hname, ?_⟩
  obtain heq | ⟨_, content, -, hnew⟩ := h.entry (name :: directory)
  · exact ⟨entry, heq.trans hentry, hkind⟩
  · exact ⟨.file content, hnew, fun h => by cases h⟩

end SameEntries

end Volume

namespace Disk

open Volume (Spot)

variable {d d' : Disk} {place other : Place} {content : ByteArray} {source target : String}

theorem oneFile_iff : d.oneFile place other = true ↔
    place = other ∨ (d.traits place).number ≠ none ∧
      (d.traits place).number = (d.traits other).number := by
  simp [oneFile, Option.isSome_iff_ne_none]

theorem ne_of_not_oneFile (h : ¬ d.oneFile place other = true) : place ≠ other :=
  fun heq => h (oneFile_iff.2 (.inl heq))

theorem WellFormed.exists_file (hd : d.WellFormed) (h : d.oneFile place other = true)
    (hne : place ≠ other) : ∃ content, d.volume.entry? other = some (.file content) := by
  obtain ⟨hnumber, hsame⟩ := (oneFile_iff.1 h).resolve_left hne
  exact hd.numbered other (hsame ▸ hnumber)

/-! ## Writing -/

/-- A file has been written under all its names. -/
structure Writes (d d' : Disk) (place : Place) (content : ByteArray) : Prop where
  written : ∀ other, d.oneFile place other = true →
    d'.volume.entry? other = some (.file content)
  kept : ∀ other, d.oneFile place other = false →
    d'.volume.entry? other = d.volume.entry? other ∧ d'.traits other = d.traits other
  home : d'.volume.home = d.volume.home

theorem entry?_write (hd : d.WellFormed) (hplace : d.volume.TakesFile place) :
    (d.write place content).volume.entry? other =
      if d.oneFile place other then some (.file content) else d.volume.entry? other := by
  cases other with
  | nil =>
      rw [if_neg]
      · rfl
      · intro h
        obtain ⟨_, hroot⟩ := hd.exists_file h hplace.1
        cases hroot
  | cons name parent =>
      have hput : (d.volume.put place (.file content)).entries[name :: parent]? =
          if place = name :: parent then some (.file content)
          else d.volume.entry? (name :: parent) := Volume.entry?_put hplace.1 _ (name :: parent)
      have hwrite : (d.write place content).volume.entry? (name :: parent) =
          ((d.volume.put place (.file content)).entries[name :: parent]?).map fun entry =>
            if d.oneFile place (name :: parent) then .file content else entry :=
        Std.ExtTreeMap.getElem?_map
      rw [hwrite, hput]
      by_cases hsame : d.oneFile place (name :: parent) = true
      · simp only [hsame, if_true]
        split
        · rfl
        · next hne =>
          obtain ⟨old, hold⟩ := hd.exists_file hsame hne
          rw [hold]
          rfl
      · rw [if_neg (ne_of_not_oneFile hsame)]
        simp only [hsame, Bool.false_eq_true, if_false, Option.map_id']

theorem writes_write (hd : d.WellFormed) (hplace : d.volume.TakesFile place) :
    d.Writes (d.write place content) place content := by
  refine ⟨fun other h => ?_, fun other h => ⟨?_, ?_⟩, rfl⟩
  · rw [entry?_write hd hplace, if_pos h]
  · rw [entry?_write hd hplace, h]
    rfl
  · rw [write]
    simp only [h, Bool.false_eq_true, if_false]

theorem sameEntries_write (hd : d.WellFormed) (hplace : d.volume.TakesFile place) :
    (d.volume.put place (.file content)).SameEntries (d.write place content).volume := by
  refine ⟨rfl, fun other => ?_⟩
  rw [entry?_write hd hplace, Volume.entry?_put hplace.1]
  by_cases hsame : d.oneFile place other = true
  · rw [if_pos hsame]
    split
    · exact .inl rfl
    · next hne =>
      obtain ⟨old, hold⟩ := hd.exists_file hsame hne
      exact .inr ⟨old, content, hold, rfl⟩
  · rw [if_neg hsame, if_neg (ne_of_not_oneFile hsame)]
    exact .inl rfl

/-- Bytes go to the null device, where they are lost, or to a file. -/
theorem store_cases {spot : Spot} (hspot : d.volume.Opened spot) :
    (d.volume.entry? spot.place = some .nullDevice ∧ d.store spot content = d) ∨
      d.volume.TakesFile spot.place ∧ d.store spot content = d.write spot.place content := by
  cases hspot with
  | device h => exact .inl ⟨h, by rw [store, Spot.place, h]⟩
  | file hroot h => exact .inr ⟨⟨hroot, .inr ⟨_, h⟩⟩, by rw [store, Spot.place, h]⟩
  | new h => exact .inr ⟨⟨List.cons_ne_nil _ _, .inl h⟩, by rw [store, Spot.place, h]⟩

theorem removable_store (hd : d.WellFormed) {spot : Spot} (hspot : d.volume.Opened spot)
    {name : String} {directory : Place} (h : d.volume.Removable source directory name) :
    (d.store spot content).volume.Removable source directory name := by
  obtain ⟨-, hstore⟩ | ⟨htakes, hstore⟩ := @store_cases d content spot hspot
  · rwa [hstore]
  · rw [hstore]
    exact (sameEntries_write hd htakes).removable (h.put htakes content)

/-! ## Copying -/

theorem copies_of_planCopy {plan : CopyPlan} (h : d.planCopy source target = .ok plan) :
    d.volume.Copies source target plan.source plan.content plan.target := by
  obtain ⟨place, hplace, h⟩ := Volume.bind_eq_ok.1 h
  split at h
  · cases h
  next content hcontent =>
  obtain ⟨spot, hspot, h⟩ := Volume.bind_eq_ok.1 h
  split at h
  · cases h
  · cases h
    exact ⟨hplace, Volume.fileAt?_eq_some_iff.1 hcontent, hspot⟩

theorem exists_copies_of_done {bytes : Nat} (h : d.copy source target = .done bytes d') :
    ∃ place content spot, d.volume.Copies source target place content spot ∧
      d' = d.store spot (if d.oneFile place spot.place then .empty else content) := by
  unfold copy at h
  split at h
  · cases h
  next place content spot hplan =>
  refine ⟨place, content, spot, copies_of_planCopy hplan, ?_⟩
  split at h
  · next hsame =>
    cases h
    rw [if_pos hsame]
  split at h
  · cases h
  · next hother _ =>
    cases h
    rw [if_neg hother]

theorem exists_copies_of_brokenOff {cause : Refusal}
    (h : d.copy source target = .brokenOff cause d') :
    ∃ place content spot, d.volume.Copies source target place content spot ∧
      d' = d.store spot .empty := by
  unfold copy at h
  split at h
  · cases h
  next place content spot hplan =>
  split at h
  · cases h
  split at h
  · cases h
    exact ⟨place, content, spot, copies_of_planCopy hplan, rfl⟩
  · cases h

/-! ## One place with a trait -/

def marked (v : Volume) (place : Place) (trait : Trait) : Disk :=
  ⟨v, fun other => if other = place then trait else {}⟩

theorem wellFormed_marked {v : Volume} (hv : v.WellFormed) {trait : Trait}
    (hplace : v.entry? place ≠ none) (hnumber : trait.number = none) :
    (marked v place trait).WellFormed := by
  have hnone (other : Place) : ((marked v place trait).traits other).number = none := by
    unfold marked
    dsimp only
    split
    · exact hnumber
    · rfl
  refine ⟨hv, fun other hfree => if_neg ?_, fun other h => absurd (hnone other) h,
    fun place other h => ?_⟩
  · rintro rfl
    exact hplace hfree
  · obtain rfl | ⟨h, -⟩ := oneFile_iff.1 h
    · exact ⟨rfl, rfl⟩
    · exact absurd (hnone place) h

end Disk

end FileChores
