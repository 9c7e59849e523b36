import FileChores.Volume.FileSystem

/-!
# Disks

On a disk a file can have several names, an entry can be locked against writing, and the bytes of a
file can be lost. So a rename may do nothing, a call may be denied, and a copy may be broken off.
Every directory can be searched and read.
-/

namespace FileChores

namespace Refusal

def denied : Refusal :=
  .other "Permission denied (os error 13)"

def unreadable : Refusal :=
  .other "Input/output error (os error 5)"

end Refusal

/-- What a place has besides its entry. -/
structure Trait where
  /-- Names of one file have the same number. -/
  number : Option Nat := none
  /-- The bytes of a file, or the names in a directory, cannot be changed. -/
  locked : Bool := false
  /-- The bytes of a file cannot be read. -/
  damaged : Bool := false

structure Disk where
  volume : Volume
  traits : Place → Trait

namespace Disk

def oneFile (d : Disk) (place other : Place) : Bool :=
  place = other ||
    ((d.traits place).number.isSome && (d.traits place).number == (d.traits other).number)

/-- Free places have no traits, and the names of a file agree on it. -/
structure WellFormed (d : Disk) : Prop where
  tree : d.volume.WellFormed
  free : ∀ place, d.volume.entry? place = none → d.traits place = {}
  numbered : ∀ place, (d.traits place).number ≠ none →
    ∃ content, d.volume.entry? place = some (.file content)
  shared : ∀ place other, d.oneFile place other = true →
    d.volume.entry? other = d.volume.entry? place ∧ d.traits other = d.traits place

/-! ## Renaming -/

/-- A directory that comes into another one is written itself. -/
def mayMove (d : Disk) (moved : Entry) (source target : Place) : Except Refusal Unit :=
  if (d.traits source.tail).locked || (d.traits target.tail).locked then .error .denied
  else
    match moved, d.volume.mayReplace moved target with
    | _, .error .notDirectory => .error .notDirectory
    | .directory, replaced =>
        if (d.traits source).locked && source.tail ≠ target.tail then .error .denied else replaced
    | _, replaced => replaced

/-- The traits of an entry go along with it, and those of what it replaces are gone. -/
def graft (d : Disk) (source target : Place) : Disk where
  volume := d.volume.graft source target
  traits place :=
    match Place.below? target place with
    | some inner => d.traits (inner ++ source)
    | none => if (Place.below? source place).isSome then {} else d.traits place

/-- One name of a file does not take the place of another one: both are kept. -/
def renameEntry (d : Disk) (moved : Entry) (source target : Place) : Except Refusal Disk :=
  if (Place.below? source target.tail).isSome then .error .invalidArgument
  else if (Place.below? target source.tail).isSome then .error .notEmpty
  else if d.oneFile source target then .ok d
  else do
    d.mayMove moved source target
    return d.graft source target

def rename (d : Disk) (source target : String) : Except Refusal Disk := do
  let plan ← d.volume.planRename source target
  d.renameEntry plan.moved plan.source plan.target

/-! ## Copying -/

/-- A file that is to be copied, and the spot that is opened for its bytes. -/
structure CopyPlan where
  source : Place
  content : ByteArray
  target : Volume.Spot

/-- What is new is written to its directory. -/
def isLocked (d : Disk) : Volume.Spot → Bool
  | .present place => (d.traits place).locked
  | .vacant directory _ => (d.traits directory).locked

def planCopy (d : Disk) (source target : String) : Except Refusal CopyPlan := do
  let place ← d.volume.resolve source
  match d.volume.fileAt? place with
  | none => .error .notRegular
  | some content =>
      let spot ← d.volume.writable target
      if d.isLocked spot then .error .denied else .ok ⟨place, content, spot⟩

def write (d : Disk) (place : Place) (content : ByteArray) : Disk where
  volume :=
    { d.volume with
      entries := (d.volume.put place (.file content)).entries.map fun other entry =>
        if d.oneFile place other then .file content else entry }
  traits other :=
    if d.oneFile place other then { d.traits other with damaged := false } else d.traits other

def store (d : Disk) (spot : Volume.Spot) (content : ByteArray) : Disk :=
  match d.volume.entry? spot.place with
  | some .nullDevice => d
  | _ => d.write spot.place content

/-- The target is emptied before the first byte is read. -/
def copy (d : Disk) (source target : String) : Copying Disk :=
  match d.planCopy source target with
  | .error cause => .refused cause
  | .ok ⟨place, content, spot⟩ =>
      if d.oneFile place spot.place then .done 0 (d.store spot .empty)
      else if (d.traits place).damaged then .brokenOff .unreadable (d.store spot .empty)
      else .done content.size (d.store spot content)

/-! ## Removing -/

def erase (d : Disk) (place : Place) : Disk where
  volume := d.volume.remove place
  traits other := if other = place then {} else d.traits other

def eraseName (d : Disk) (place : Place) : Except Refusal Disk :=
  if (d.traits place.tail).locked then .error .denied else .ok (d.erase place)

def unlink (d : Disk) (path : String) : Except Refusal Disk := do
  d.eraseName (← d.volume.unlinkable path)

def removeDirectory (d : Disk) (path : String) : Except Refusal Disk := do
  d.eraseName (← d.volume.vacated path)

/-! ## Requests -/

def host : Host Disk where
  resolves d := d.volume.resolves
  isFile d := d.volume.isFile
  isDirectory d := Volume.host.isDirectory d.volume
  rename := rename
  copy := copy
  unlink := unlink
  removeDirectory := removeDirectory
  names d := Volume.host.names d.volume
  space d := d.volume.space

def fileSystem : FileSystem Disk :=
  host.fileSystem

end Disk

end FileChores
