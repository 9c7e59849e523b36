import FileChores.Volume

/-!
# Following a path

A path is followed name by name. A symbolic link on the way is replaced by its target, forty times
at most in one path. What the last name of a path may be, and whether a link under that name is
followed, depends on the use of the path:

* `resolve` follows everything and wants an entry to exist;
* `writable` follows everything and allows that the last name is new;
* `slot` stops before the last name, and is for the operations on an entry itself.
-/

namespace FileChores.Volume

/-- How far names lead without following a link. -/
inductive Stop
  | arrived (place : Place)
  | missing (directory : Place) (name : String) (rest : List String)
  | link (directory : Place) (target : String) (rest : List String)

def advance (v : Volume) (here : Place) : List String → Except Refusal Stop
  | [] => .ok (.arrived here)
  | name :: rest =>
      if !v.isDirectory here then .error .notDirectory
      else if name = "." then advance v here rest
      else if name = ".." then advance v here.tail rest
      else if Path.maxNameBytes < name.utf8ByteSize then .error .nameTooLong
      else
        match v.entry? (name :: here) with
        | none => .ok (.missing here name rest)
        | some (.link target) => .ok (.link here target rest)
        | some _ => advance v (name :: here) rest

/-- An entry, or a name that is free in a directory. -/
inductive Spot
  | present (place : Place)
  | vacant (directory : Place) (name : String)

def Spot.place : Spot → Place
  | present place => place
  | vacant directory name => name :: directory

def maxLinks : Nat := 40

/-- Where a path starts that is spelled in the directory `here`. -/
def origin (path : Path) (here : Place) : Place :=
  if path.absolute then [] else here

/-- Follows names and links, `links` links at most. -/
def walk (v : Volume) (links : Nat) (here : Place) (names : List String) : Except Refusal Spot := do
  match ← v.advance here names with
  | .arrived place => .ok (.present place)
  | .missing directory name [] => .ok (.vacant directory name)
  | .missing _ _ (_ :: _) => .error .noEntry
  | .link directory target rest =>
      match links with
      | 0 => .error .tooManyLinks
      | links + 1 =>
          let path := Path.split target
          walk v links (origin path directory) (path.steps ++ rest)

def Spot.place? : Spot → Except Refusal Place
  | present place => .ok place
  | vacant _ _ => .error .noEntry

/-- The entry that a path leads to. -/
def resolve (v : Volume) (spelling : String) : Except Refusal Place := do
  let path ← Path.ofString spelling
  (← v.walk maxLinks (origin path v.home) path.steps).place?

def resolves (v : Volume) (spelling : String) : Bool :=
  (v.resolve spelling).isOk

def parentOf (v : Volume) (links : Nat) (here : Place) (path : Path) : Except Refusal Place := do
  let place ← (← v.walk links (origin path here) path.names.dropLast).place?
  if v.isDirectory place then .ok place else .error .notDirectory

/-- The entry or the free name to which a path leads that is opened for writing. No directory can be
written, so a slash at the end is never granted, nor is what it follows looked into. -/
def writableFrom (v : Volume) (links : Nat) (here : Place) (path : Path) : Except Refusal Spot := do
  if path.slash then
    let _ ← v.parentOf links here path
    .error .isDirectory
  else
    match ← v.advance (origin path here) path.names with
    | .arrived place => if v.isDirectory place then .error .isDirectory else .ok (.present place)
    | .missing directory name [] => .ok (.vacant directory name)
    | .missing _ _ (_ :: _) => .error .noEntry
    | .link directory target rest =>
        match links with
        | 0 => .error .tooManyLinks
        | links + 1 => writableFrom v links directory ((Path.split target).followedBy rest)

def writable (v : Volume) (spelling : String) : Except Refusal Spot := do
  v.writableFrom maxLinks v.home (← Path.ofString spelling)

inductive Last
  | name (name : String)
  | here
  | parent
  | root
  deriving DecidableEq

namespace Last

def ofName : String → Last
  | "." => here
  | ".." => parent
  | other => name other

end Last

/-- A place for an entry: a directory and the end of the path that leads there. -/
structure Slot where
  directory : Place
  last : Last
  slash : Bool

def slot (v : Volume) (spelling : String) : Except Refusal Slot := do
  let path ← Path.ofString spelling
  match path.names.getLast? with
  | none => .ok ⟨[], .root, path.slash⟩
  | some last => return ⟨← v.parentOf maxLinks v.home path, .ofName last, path.slash⟩

/-- The entry under a name, links not followed. -/
def child (v : Volume) (directory : Place) (name : String) : Except Refusal (Option Entry) :=
  if Path.maxNameBytes < name.utf8ByteSize then .error .nameTooLong
  else .ok (v.entry? (name :: directory))

/-- The entry that a path names, a link itself when its last name is one. -/
def entryAt (v : Volume) (spelling : String) : Except Refusal Place := do
  let slot ← v.slot spelling
  match slot.last, slot.slash with
  | .name name, false =>
      match ← v.child slot.directory name with
      | some _ => .ok (name :: slot.directory)
      | none => .error .noEntry
  | _, _ => v.resolve spelling

end FileChores.Volume
