import FileChores.Volume.Lookup

/-!
# Copying bytes

Only bytes are copied: links are followed on both sides. The target is emptied before the first byte
is read, so a file that is copied onto itself ends up empty.
-/

namespace FileChores.Volume

def fileAt? (v : Volume) (place : Place) : Option ByteArray :=
  match v.entry? place with
  | some (.file content) => some content
  | _ => none

/-- Writes what is read from the file at `source` to a place that has been opened for writing, and
counts the bytes. -/
def transfer (v : Volume) (source : Place) (content : ByteArray) : Spot → Nat × Volume
  | .vacant directory name => (content.size, v.put (name :: directory) (.file content))
  | .present target =>
      match v.entry? target with
      | some .nullDevice => (content.size, v)
      | _ =>
          let content := if target = source then .empty else content
          (content.size, v.put target (.file content))

def copy (v : Volume) (source target : String) : Except Refusal (Nat × Volume) := do
  let place ← v.resolve source
  match v.fileAt? place with
  | none => .error .notRegular
  | some content => return v.transfer place content (← v.writable target)

end FileChores.Volume
