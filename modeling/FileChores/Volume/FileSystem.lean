import FileChores.Host
import FileChores.Volume.Copy
import FileChores.Volume.Measure
import FileChores.Volume.Remove
import FileChores.Volume.Rename

/-!
# A volume as a file system

The system calls on a volume, and the requests of a script that are made of them.
-/

namespace FileChores.Volume

def isFile (v : Volume) (spelling : String) : Bool :=
  match v.resolve spelling with
  | .ok place => (v.fileAt? place).isSome
  | .error _ => false

/-- No call is denied, and no copy is broken off. -/
def host : Host Volume where
  resolves := resolves
  isFile := isFile
  isDirectory v path :=
    match v.resolve path with
    | .ok place => v.isDirectory place
    | .error _ => false
  rename := rename
  copy v source target := .ofExcept (v.copy source target)
  unlink := unlink
  removeDirectory := removeDirectory
  names v path := do
    let place ← v.resolve path
    if v.isDirectory place then .ok (v.names place) else .error .notDirectory
  space := space

def relocate (v : Volume) (source target : String) :
    Except FileError Unit × Option Refusal × Volume :=
  host.relocate v source target

def copyFile (v : Volume) (source target : String) : Except FileError Nat × Volume :=
  host.copyFile v source target

def delete (v : Volume) (path : String) : Except FileError Unit × Volume :=
  host.delete v path

def list (v : Volume) (path : String) : Except FileError (List String) :=
  host.list v path

def count (v : Volume) (path : String) : Except FileError Nat :=
  host.count v path

def checkSpace (v : Volume) (path : String) : Except FileError Nat :=
  host.checkSpace v path

def fileSystem : FileSystem Volume :=
  host.fileSystem

def read (v : Volume) (spelling : String) : Except Refusal ByteArray := do
  match v.entry? (← v.resolve spelling) with
  | some (.file content) => .ok content
  | some .nullDevice => .ok .empty
  | _ => .error .isDirectory

end FileChores.Volume
