import FileChores.Volume.Lookup

/-!
# Removing entries

A file, a link or a device is removed by `unlink`, a directory by `removeDirectory` and only when it
is empty. Neither follows a link under the last name of its path.
-/

namespace FileChores.Volume

def unlinkable (v : Volume) (spelling : String) : Except Refusal Place := do
  let slot ← v.slot spelling
  match slot.last with
  | .name name =>
      match ← v.child slot.directory name with
      | none => .error .noEntry
      | some .directory => .error .isDirectory
      | some _ => if slot.slash then .error .notDirectory else .ok (name :: slot.directory)
  | _ => .error .isDirectory

def unlink (v : Volume) (spelling : String) : Except Refusal Volume := do
  return v.remove (← v.unlinkable spelling)

def vacated (v : Volume) (spelling : String) : Except Refusal Place := do
  let slot ← v.slot spelling
  match slot.last with
  | .parent => .error .notEmpty
  | .here => .error .invalidArgument
  | .root => .error .busy
  | .name name =>
      let place := name :: slot.directory
      match ← v.child slot.directory name with
      | none => .error .noEntry
      | some .directory => if v.names place = [] then .ok place else .error .notEmpty
      | some _ => .error .notDirectory

def removeDirectory (v : Volume) (spelling : String) : Except Refusal Volume := do
  return v.remove (← v.vacated spelling)

end FileChores.Volume
