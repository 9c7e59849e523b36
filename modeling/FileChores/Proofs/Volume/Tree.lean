import Mathlib
import FileChores.Proofs.Volume.Leads
import FileChores.Volume.Copy

/-!
# Paths in a tree

In a well-formed volume a path leads to an entry that is no link, or to a free name in a directory.
When a file is written, every path that led somewhere still leads there.
-/

namespace FileChores.Volume

variable {v : Volume}

theorem entry?_put {place : Place} (h : place ≠ []) (entry : Entry) (other : Place) :
    entry? (v.put place entry) other = if place = other then some entry else v.entry? other := by
  cases other with
  | nil => rw [if_neg h]; rfl
  | cons name parent => simp [put, entry?, Std.ExtTreeMap.getElem?_insert]

theorem WellFormed.tail (hv : v.WellFormed) {place : Place}
    (h : v.entry? place = some .directory) : v.entry? place.tail = some .directory := by
  cases place with
  | nil => rfl
  | cons name parent => exact hv.parent name parent (by rw [h]; exact Option.some_ne_none _)

theorem entry?_origin (path : Path) {here : Place} (h : v.entry? here = some .directory) :
    v.entry? (origin path here) = some .directory := by
  unfold origin
  split
  · rfl
  · exact h

def Holds (v : Volume) (place : Place) : Prop :=
  ∃ entry, v.entry? place = some entry ∧ ∀ target, entry ≠ .link target

theorem holds_of_directory {place : Place} (h : v.entry? place = some .directory) :
    v.Holds place :=
  ⟨.directory, h, fun _ h => by cases h⟩

inductive Lands (v : Volume) : Spot → Prop
  | present {place : Place} : v.Holds place → Lands v (.present place)
  | vacant {directory : Place} {name : String} : v.entry? directory = some .directory →
      v.entry? (name :: directory) = none → Lands v (.vacant directory name)

theorem Leads.lands {links : Nat} {here : Place} {names : List String} {spot : Spot}
    (hv : v.WellFormed) (hhere : v.Holds here) (h : v.Leads links here names spot) :
    v.Lands spot := by
  induction h with
  | arrived => exact .present hhere
  | stay _ _ ih => exact ih hhere
  | up hdirectory _ ih => exact ih (holds_of_directory (hv.tail hdirectory))
  | vacant hdirectory _ hentry => exact .vacant hdirectory hentry
  | link hdirectory _ _ _ ih => exact ih (holds_of_directory (entry?_origin _ hdirectory))
  | down _ _ hentry hlink _ ih => exact ih ⟨_, hentry, hlink⟩

/-! ## Trees -/

theorem wellFormed_empty : empty.WellFormed := by
  have hplaces : ∀ name place, empty.entry? (name :: place) ≠ none →
      (name = "dev" ∧ place = []) ∨ (name = "null" ∧ place = ["dev"]) ∨
        (name = "home" ∧ place = []) := by
    intro name place h
    have hmem : (name :: place) ∈ empty.entries :=
      Std.ExtTreeMap.mem_iff_isSome_getElem?.2 (Option.isSome_iff_ne_none.2 h)
    rw [empty, Std.ExtTreeMap.mem_ofList] at hmem
    simpa using hmem
  refine ⟨fun name place h => ?_, fun name place h => ?_, by cbv⟩
  · rcases hplaces name place h with ⟨rfl, rfl⟩ | ⟨rfl, rfl⟩ | ⟨rfl, rfl⟩
    · rfl
    · cbv
    · rfl
  · rcases hplaces name place h with ⟨rfl, -⟩ | ⟨rfl, -⟩ | ⟨rfl, -⟩ <;> decide

/-- A new entry under a proper name, or another one in the place of what is no directory. -/
theorem WellFormed.put (hv : v.WellFormed) {parent : Place} {name : String}
    (hparent : v.entry? parent = some .directory)
    (hname : name ≠ "" ∧ name ≠ "." ∧ name ≠ ".." ∧ '/' ∉ name.toList ∧ '\x00' ∉ name.toList)
    (hplace : v.entry? (name :: parent) ≠ some .directory) (entry : Entry) :
    (v.put (name :: parent) entry).WellFormed := by
  have hput := entry?_put (v := v) (List.cons_ne_nil name parent) entry
  have hkept : ∀ other, v.entry? other = some .directory →
      entry? (v.put (name :: parent) entry) other = some .directory := by
    intro other hother
    rw [hput, if_neg, hother]
    rintro rfl
    exact hplace hother
  refine ⟨fun other place h => hkept place ?_, fun other place h => ?_, hkept v.home hv.home⟩
  · rw [hput] at h
    split at h
    · next heq => cases heq; exact hparent
    · exact hv.parent other place h
  · rw [hput] at h
    split at h
    · next heq => cases heq; exact hname
    · exact hv.name other place h

def digits : ByteArray :=
  ⟨#[49, 50, 51, 52, 53]⟩

def single : Volume :=
  empty.put ["a", "home"] (.file digits)

theorem wellFormed_single : single.WellFormed := by
  refine wellFormed_empty.put rfl (by decide) ?_ _
  cbv
  exact fun h => by cases h

theorem resolve_single : single.resolve "a" = .ok ["a", "home"] := by cbv

theorem entry?_single : single.entry? ["a", "home"] = some (.file digits) := by cbv

def looped : Volume :=
  single.put ["l", "home"] (.link ".")

theorem wellFormed_looped : looped.WellFormed := by
  refine wellFormed_single.put rfl (by decide) ?_ _
  cbv
  exact fun h => by cases h

/-! ## Writing a file -/

def TakesFile (v : Volume) (place : Place) : Prop :=
  place ≠ [] ∧ (v.entry? place = none ∨ ∃ old, v.entry? place = some (.file old))

section

variable {target : Place} (h : v.TakesFile target) (content : ByteArray)

include h

theorem TakesFile.entry?_put_self :
    entry? (v.put target (.file content)) target = some (.file content) := by
  rw [entry?_put h.1, if_pos rfl]

theorem TakesFile.entry?_put_of_ne {place : Place} {entry : Entry}
    (hplace : v.entry? place = some entry) (hentry : ∀ old, entry ≠ .file old) :
    entry? (v.put target (.file content)) place = some entry := by
  rw [entry?_put h.1, if_neg, hplace]
  rintro rfl
  rcases h.2 with h | ⟨old, h⟩ <;> cases hplace.symm.trans h
  exact hentry old rfl

theorem TakesFile.entry?_put_directory {place : Place} (hplace : v.entry? place = some .directory) :
    entry? (v.put target (.file content)) place = some .directory :=
  h.entry?_put_of_ne content hplace fun _ h => by cases h

theorem TakesFile.leads_put {links : Nat} {here : Place} {names : List String} {spot : Spot}
    (hleads : v.Leads links here names spot)
    (hspot : ∀ directory name, spot = .vacant directory name → name :: directory = target) :
    (v.put target (.file content)).Leads links here names (.present spot.place) := by
  induction hleads with
  | arrived links here => exact .arrived links here
  | stay hdirectory _ ih => exact .stay (h.entry?_put_directory content hdirectory) (ih hspot)
  | up hdirectory _ ih => exact .up (h.entry?_put_directory content hdirectory) (ih hspot)
  | vacant hdirectory hname hentry =>
      obtain rfl := hspot _ _ rfl
      exact .down (h.entry?_put_directory content hdirectory) hname (h.entry?_put_self content)
        (fun _ h => by cases h) (.arrived _ _)
  | link hdirectory hname hentry _ ih =>
      exact .link (h.entry?_put_directory content hdirectory) hname
        (h.entry?_put_of_ne content hentry fun _ h => by cases h) (ih hspot)
  | @down links here name entry rest spot hdirectory hname hentry hlink _ ih =>
      by_cases hplace : target = name :: here
      · subst hplace
        exact .down (h.entry?_put_directory content hdirectory) hname (h.entry?_put_self content)
          (fun _ h => by cases h) (ih hspot)
      · refine .down (h.entry?_put_directory content hdirectory) hname ?_ hlink (ih hspot)
        rw [entry?_put h.1, if_neg hplace, hentry]

theorem TakesFile.resolve_put {spelling : String} {place : Place}
    (hplace : v.resolve spelling = .ok place) :
    (v.put target (.file content)).resolve spelling = .ok place := by
  obtain ⟨path, hpath, hleads⟩ := resolve_eq_ok_iff.1 hplace
  refine resolve_eq_ok_iff.2 ⟨path, hpath, ?_⟩
  exact h.leads_put content hleads fun _ _ h => by cases h

end

theorem resolve_put_of_writable {spelling : String} {spot : Spot}
    (hspot : v.writable spelling = .ok spot) (h : v.TakesFile spot.place) (content : ByteArray) :
    (v.put spot.place (.file content)).resolve spelling = .ok spot.place := by
  obtain ⟨path, hpath, hleads, -⟩ := opensAt_of_writable hspot
  refine resolve_eq_ok_iff.2 ⟨path, hpath, ?_⟩
  refine h.leads_put content hleads ?_
  rintro directory name rfl
  rfl

theorem resolve_of_writable {spelling : String} {spot : Spot}
    (h : v.writable spelling = .ok spot) : v.resolve spelling = spot.place? := by
  obtain ⟨path, hpath, hleads, -⟩ := opensAt_of_writable h
  rw [resolve, hpath]
  change (do (← v.walk maxLinks (Volume.origin path v.home) path.steps).place?) = _
  rw [walk_eq_ok_iff.2 hleads]
  rfl

inductive Opened (v : Volume) : Spot → Prop
  | device {place : Place} : v.entry? place = some .nullDevice → Opened v (.present place)
  | file {place : Place} {old : ByteArray} : place ≠ [] → v.entry? place = some (.file old) →
      Opened v (.present place)
  | new {directory : Place} {name : String} : v.entry? (name :: directory) = none →
      Opened v (.vacant directory name)

theorem opened_of_writable (hv : v.WellFormed) {spelling : String} {spot : Spot}
    (h : v.writable spelling = .ok spot) : v.Opened spot := by
  obtain ⟨path, hpath, hleads, hdirectory⟩ := opensAt_of_writable h
  have horigin : v.Holds (origin path v.home) := holds_of_directory (entry?_origin path hv.home)
  cases hleads.lands hv horigin with
  | vacant _ hentry => exact .new hentry
  | @present place hplace =>
      have hplace' := hdirectory place rfl
      obtain ⟨entry, hentry, hlink⟩ := hplace
      cases entry with
      | file old =>
          refine .file ?_ hentry
          rintro rfl
          cases hentry
      | directory => rw [isDirectory_iff.2 hentry] at hplace'; cases hplace'
      | link target => exact absurd rfl (hlink target)
      | nullDevice => exact .device hentry

end FileChores.Volume
