import FileChores.Volume.Lookup

/-!
# Renaming entries

An entry is renamed as it is: a link stays a link, and a directory keeps everything below it. A
file or a link takes the place of a file or a link, a directory that of an empty directory.
-/

namespace FileChores.Volume

/-- Whether the entry of kind `moved` may take the place of what stands at `target`. -/
def mayReplace (v : Volume) (moved : Entry) (target : Place) : Except Refusal Unit :=
  match moved, v.entry? target with
  | _, none => .ok ()
  | .directory, some .directory => if v.names target = [] then .ok () else .error .notEmpty
  | .directory, some _ => .error .notDirectory
  | _, some .directory => .error .isDirectory
  | _, some _ => .ok ()

/-- Moves what stands at `source`, an entry of the kind `moved`. Nothing is moved into itself, and
nothing takes the place of a directory it lies in. -/
def renameEntry (v : Volume) (moved : Entry) (source target : Place) : Except Refusal Volume :=
  if (Place.below? source target.tail).isSome then .error .invalidArgument
  else if (Place.below? target source.tail).isSome then .error .notEmpty
  else if source = target then .ok v
  else do
    v.mayReplace moved target
    return v.graft source target

structure RenamePlan where
  moved : Entry
  source : Place
  target : Place

/-- The entry in one slot is to be moved to another one. Only a directory may be spelled with a
slash. The directory a path stands in, its parent and the root cannot be moved or replaced. -/
def renameSlot (v : Volume) (old new : Slot) : Except Refusal RenamePlan :=
  if onDeviceTree old.directory ≠ onDeviceTree new.directory then .error .crossDevice
  else
    match old.last, new.last with
    | .name oldName, .name newName => do
        match ← v.child old.directory oldName with
        | none => .error .noEntry
        | some moved =>
            let _ ← v.child new.directory newName
            let source := oldName :: old.directory
            if (old.slash || new.slash) && !v.isDirectory source then .error .notDirectory
            else .ok ⟨moved, source, newName :: new.directory⟩
    | _, _ => .error .busy

def planRename (v : Volume) (source target : String) : Except Refusal RenamePlan := do
  let old ← v.slot source
  let new ← v.slot target
  v.renameSlot old new

def rename (v : Volume) (source target : String) : Except Refusal Volume := do
  let plan ← v.planRename source target
  v.renameEntry plan.moved plan.source plan.target

end FileChores.Volume
