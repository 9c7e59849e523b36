import FileChores.Proofs.Disk

/-!
# Disks without traits

A disk on which nothing is locked or damaged, and every file has one name, is a volume.
-/

namespace FileChores

def Copying.map {σ τ : Type} (f : σ → τ) : Copying σ → Copying τ
  | refused cause => refused cause
  | brokenOff cause left => brokenOff cause (f left)
  | done bytes left => done bytes (f left)

namespace Host

variable {σ τ : Type} {host : Host σ} {host' : Host τ} {f : σ → τ}

/-- Every call on the image of a state does what it does on the state. -/
structure Maps (host : Host σ) (host' : Host τ) (f : σ → τ) : Prop where
  resolves : ∀ files path, host'.resolves (f files) path = host.resolves files path
  isFile : ∀ files path, host'.isFile (f files) path = host.isFile files path
  isDirectory : ∀ files path, host'.isDirectory (f files) path = host.isDirectory files path
  rename : ∀ files source target,
    host'.rename (f files) source target = (host.rename files source target).map f
  copy : ∀ files source target,
    host'.copy (f files) source target = (host.copy files source target).map f
  unlink : ∀ files path, host'.unlink (f files) path = (host.unlink files path).map f
  removeDirectory : ∀ files path,
    host'.removeDirectory (f files) path = (host.removeDirectory files path).map f
  names : ∀ files path, host'.names (f files) path = host.names files path
  space : ∀ files path, host'.space (f files) path = host.space files path

namespace Maps

variable (h : host.Maps host' f) (files : σ) (source target path : String)

theorem settle (settled : Except Refusal σ) :
    Host.settle (f files) path (settled.map f) =
      ((Host.settle files path settled).1, f (Host.settle files path settled).2) := by
  cases settled <;> rfl

include h

theorem transfer : host'.transfer (f files) source target =
    ((host.transfer files source target).1, f (host.transfer files source target).2) := by
  rw [Host.transfer, Host.transfer, h.copy]
  cases host.copy files source target <;> rfl

theorem copyInstead (cause : Refusal) : host'.copyInstead (f files) source target cause =
    ((host.copyInstead files source target cause).1,
      (host.copyInstead files source target cause).2.1,
      f (host.copyInstead files source target cause).2.2) := by
  rw [Host.copyInstead, Host.copyInstead, h.isFile, h.transfer]
  split
  · obtain ⟨result, copied⟩ := host.transfer files source target
    cases result with
    | error => rfl
    | ok =>
        dsimp only
        rw [h.unlink, settle]
  · rfl

theorem relocate : host'.relocate (f files) source target =
    ((host.relocate files source target).1, (host.relocate files source target).2.1,
      f (host.relocate files source target).2.2) := by
  rw [Host.relocate, Host.relocate, h.resolves, h.rename]
  split
  · cases host.rename files source target with
    | ok => rfl
    | error cause => exact h.copyInstead files source target cause
  · rfl

theorem copyFile : host'.copyFile (f files) source target =
    ((host.copyFile files source target).1, f (host.copyFile files source target).2) := by
  rw [Host.copyFile, Host.copyFile, h.resolves, h.transfer]
  split <;> rfl

theorem delete : host'.delete (f files) path =
    ((host.delete files path).1, f (host.delete files path).2) := by
  rw [Host.delete, Host.delete, h.resolves, h.isDirectory, h.unlink, h.removeDirectory]
  split
  · split <;> rw [settle]
  · rfl

theorem list : host'.list (f files) path = host.list files path := by
  rw [Host.list, Host.list, h.isDirectory, h.names]

theorem answer (request : Request) : host'.fileSystem.answer request (f files) =
    ((host.fileSystem.answer request files).1, f (host.fileSystem.answer request files).2) := by
  cases request with
  | move source target | rename source target =>
      simp only [fileSystem, h.relocate]
  | copy source target => simp only [fileSystem, h.copyFile]
  | delete path => simp only [fileSystem, h.delete]
  | list path => simp only [fileSystem, h.list]
  | count path => simp only [fileSystem, count, h.list]
  | space path => simp only [fileSystem, checkSpace, h.resolves, h.space]

end Maps

end Host

namespace Disk

open Volume (Spot)

def plain (v : Volume) : Disk :=
  ⟨v, fun _ => {}⟩

variable {v : Volume}

theorem oneFile_plain (place other : Place) :
    (plain v).oneFile place other = decide (place = other) := by
  simp [oneFile, plain]

theorem graft_plain (source target : Place) :
    (plain v).graft source target = plain (v.graft source target) := by
  unfold graft plain
  congr 1
  funext place
  split
  · rfl
  · split <;> rfl

theorem mayMove_plain (moved : Entry) (source target : Place) :
    (plain v).mayMove moved source target = v.mayReplace moved target := by
  unfold mayMove plain
  simp only [Bool.or_self, Bool.false_eq_true, if_false, Bool.false_and]
  split <;> simp_all

theorem renameEntry_plain (moved : Entry) (source target : Place) :
    (plain v).renameEntry moved source target = (v.renameEntry moved source target).map plain := by
  unfold renameEntry Volume.renameEntry
  rw [mayMove_plain, oneFile_plain, graft_plain]
  split
  · rfl
  split
  · rfl
  simp only [decide_eq_true_eq]
  split
  · rfl
  · cases v.mayReplace moved target <;> rfl

theorem write_plain (place : Place) (content : ByteArray) :
    (plain v).write place content = plain (v.put place (.file content)) := by
  have hvolume : (plain v).volume = v := rfl
  have hentries : (v.put place (.file content)).entries.map (fun other entry =>
      if (plain v).oneFile place other then .file content else entry) =
      (v.put place (.file content)).entries := by
    refine Std.ExtTreeMap.ext_getElem? fun other => ?_
    rw [Std.ExtTreeMap.getElem?_map, oneFile_plain]
    by_cases hsame : place = other
    · subst hsame
      simp [Volume.put]
    · simp [hsame]
  unfold write
  rw [hvolume, hentries]
  unfold plain
  congr 1
  funext other
  split <;> rfl

theorem transfer_plain {place : Place} {content : ByteArray} {spot : Spot} {target : String}
    (hfile : v.entry? place = some (.file content)) (hspot : v.writable target = .ok spot) :
    (if (plain v).oneFile place spot.place then .done 0 ((plain v).store spot .empty)
      else .done content.size ((plain v).store spot content)) =
      Copying.done (v.transfer place content spot).1
        (plain (v.transfer place content spot).2) := by
  have hvolume : (plain v).volume = v := rfl
  cases spot with
  | vacant directory name =>
      have hfree := Volume.free_of_writable hspot
      have hne : place ≠ name :: directory := by
        rintro rfl
        cases hfile.symm.trans hfree
      simp only [Spot.place, oneFile_plain, hne, decide_false, Bool.false_eq_true, if_false, store,
        hvolume, hfree, write_plain, Volume.transfer]
  | present written =>
      simp only [Spot.place, oneFile_plain, decide_eq_true_eq, store, hvolume, write_plain,
        Volume.transfer]
      by_cases hsame : place = written
      · subst hsame
        simp only [hfile, if_true]
        rfl
      · simp only [if_neg hsame, if_neg (Ne.symm hsame)]
        cases v.entry? written with
        | none => rfl
        | some entry => cases entry <;> rfl

theorem copy_plain (source target : String) :
    (plain v).copy source target = (Volume.host.copy v source target).map plain := by
  have hvolume : (plain v).volume = v := rfl
  have hlocked (spot : Spot) : (plain v).isLocked spot = false := by cases spot <;> rfl
  have hhost : Volume.host.copy v source target = .ofExcept (v.copy source target) := rfl
  rw [hhost, Volume.copy, copy, planCopy, hvolume]
  cases v.resolve source with
  | error => rfl
  | ok place =>
      simp only [bind, Except.bind]
      cases hfile : v.fileAt? place with
      | none => rfl
      | some content =>
          cases hspot : v.writable target with
          | error => rfl
          | ok spot =>
              simp only [hlocked, Bool.false_eq_true, if_false]
              exact transfer_plain (Volume.fileAt?_eq_some_iff.1 hfile) hspot

theorem eraseName_plain (place : Place) :
    (plain v).eraseName place = .ok (plain (v.remove place)) := by
  unfold eraseName erase plain
  simp

theorem maps_plain : Volume.host.Maps host plain where
  resolves _ _ := rfl
  isFile _ _ := rfl
  isDirectory _ _ := rfl
  rename v source target := by
    change ((v.planRename source target).bind fun plan => _) =
      ((v.planRename source target).bind fun plan => _).map plain
    cases v.planRename source target with
    | error => rfl
    | ok plan => exact renameEntry_plain plan.moved plan.source plan.target
  copy v source target := copy_plain source target
  unlink v path := by
    change ((v.unlinkable path).bind fun place => _) =
      ((v.unlinkable path).bind fun place => _).map plain
    cases v.unlinkable path with
    | error => rfl
    | ok place => exact eraseName_plain place
  removeDirectory v path := by
    change ((v.vacated path).bind fun place => _) =
      ((v.vacated path).bind fun place => _).map plain
    cases v.vacated path with
    | error => rfl
    | ok place => exact eraseName_plain place
  names _ _ := rfl
  space _ _ := rfl

/-- A volume answers as the disk that has nothing but its entries. -/
theorem answer_plain (v : Volume) (request : Request) :
    fileSystem.answer request (plain v) =
      ((Volume.fileSystem.answer request v).1, plain (Volume.fileSystem.answer request v).2) :=
  maps_plain.answer v request

end Disk

end FileChores
