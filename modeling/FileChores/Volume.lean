import Std.Data.ExtTreeMap
import FileChores.Path

/-!
# Volumes

A volume is a whole file tree with a working directory. It is kept as a map from places to entries,
so that two volumes with the same entries are equal. The null device is on a device of its own.

A volume is an ideal: it knows no owners or permissions, so no call on it is denied. Every file has
one name. Nothing limits how much it holds or how many files are open, and every byte of a file can
be read. What is told of volumes holds of a host as far as this is so there; a disk (`Disk`) has
files with several names, entries that cannot be changed and bytes that cannot be read.
-/

namespace FileChores

/-- The names that lead to an entry, its own name first and the outermost directory last. The root
has no name. -/
abbrev Place := List String

namespace Place

/-- The names between `base` and a place at or below it. -/
def below? (base : Place) : Place → Option (List String)
  | [] => if base = [] then some [] else none
  | name :: parent =>
      if name :: parent = base then some [] else (below? base parent).map (name :: ·)

theorem below?_eq_some_iff {base place inner : List String} :
    below? base place = some inner ↔ place = inner ++ base := by
  induction place generalizing inner with
  | nil =>
      unfold below?
      split
      · next h => subst h; simp [eq_comm]
      · next h =>
          simp only [reduceCtorEq, false_iff]
          intro h'
          exact h (List.append_eq_nil_iff.1 h'.symm).2
  | cons name parent ih =>
      unfold below?
      split
      · next h =>
          subst h
          constructor
          · rintro ⟨⟩
            rfl
          · intro h
            have := congrArg List.length h
            simp only [List.length_append] at this
            rw [List.eq_nil_of_length_eq_zero (by omega : inner.length = 0)]
      · next h =>
          simp only [Option.map_eq_some_iff, ih]
          constructor
          · rintro ⟨inner, rfl, rfl⟩
            rfl
          · intro h'
            cases inner with
            | nil => exact absurd h' h
            | cons first inner =>
                obtain ⟨rfl, rfl⟩ := List.cons.inj h'
                exact ⟨inner, rfl, rfl⟩

/-- Where a place is found when what stands at `source` has been moved to `target`. -/
def moved (source target place : Place) : Place :=
  match below? source place with
  | some inner => inner ++ target
  | none => place

end Place

inductive Entry
  | file (content : ByteArray)
  | directory
  | link (target : String)
  /-- Reads as nothing and keeps nothing that is written to it. -/
  | nullDevice

namespace Entry

def size : Entry → Nat
  | file content => content.size
  | directory | link _ | nullDevice => 0

end Entry

structure Volume where
  entries : Std.ExtTreeMap Place Entry
  home : Place

namespace Volume

/-- The root is a directory on every volume. -/
def entry? (v : Volume) : Place → Option Entry
  | [] => some .directory
  | place => v.entries[place]?

def isDirectory (v : Volume) (place : Place) : Bool :=
  match v.entry? place with
  | some .directory => true
  | _ => false

/-- Entries lie in directories, and every name can be spelled between slashes. -/
structure WellFormed (v : Volume) : Prop where
  parent : ∀ name place, v.entry? (name :: place) ≠ none → v.entry? place = some .directory
  name : ∀ name place, v.entry? (name :: place) ≠ none →
    name ≠ "" ∧ name ≠ "." ∧ name ≠ ".." ∧ '/' ∉ name.toList ∧ '\x00' ∉ name.toList
  home : v.entry? v.home = some .directory

def put (v : Volume) (place : Place) (entry : Entry) : Volume :=
  { v with entries := v.entries.insert place entry }

def remove (v : Volume) (place : Place) : Volume :=
  { v with entries := v.entries.erase place }

/-- Where an entry is found after a move. What stood at the target is found nowhere. -/
def carry (source target : Place) : Place × Entry → Option (Place × Entry)
  | (place, entry) =>
      match Place.below? source place with
      | some inner => some (inner ++ target, entry)
      | none => if place = target then none else some (place, entry)

/-- Moves an entry with everything below it. A working directory goes along with the directory it
lies in. -/
def graft (v : Volume) (source target : Place) : Volume :=
  ⟨.ofList (v.entries.toList.filterMap (carry source target)), Place.moved source target v.home⟩

def names (v : Volume) (place : Place) : List String :=
  v.entries.toList.filterMap fun
    | (name :: parent, _) => if parent = place then some name else none
    | ([], _) => none

/-- The entries at or below a place, each with the names that lead to it from there. -/
def under (v : Volume) (place : Place) : List (List String × Entry) :=
  v.entries.toList.filterMap fun (other, entry) =>
    (Place.below? place other).map fun inner => (inner, entry)

/-- Whether a directory lies on the device that holds the null device. -/
def onDeviceTree (directory : Place) : Bool :=
  directory.getLast? == some "dev"

def empty : Volume where
  entries := .ofList
    [(["dev"], Entry.directory), (["null", "dev"], Entry.nullDevice), (["home"], Entry.directory)]
  home := ["home"]

def makeDirectory (v : Volume) (place : Place) : Volume :=
  if (v.entry? place).isSome then v else v.put place .directory

/-- Puts an entry below `here` and makes the directories that lead to it. -/
def plant (v : Volume) (entry : Entry) (here : Place) : List String → Volume
  | [] => v
  | [last] =>
      match entry with
      | .directory => v.makeDirectory (last :: here)
      | entry => v.put (last :: here) entry
  | name :: rest => plant (v.makeDirectory (name :: here)) entry (name :: here) rest

def ofEntries (entries : List (String × Entry)) : Volume :=
  entries.foldl (fun v (path, entry) => v.plant entry v.home (Path.split path).names) empty

/-- Everything below the working directory, by relative path in ascending order. -/
def listing (v : Volume) : List (String × Entry) :=
  let spelled := (v.under v.home).filterMap fun
    | ([], _) => none
    | (inner, entry) => some ("/".intercalate inner.reverse, entry)
  spelled.mergeSort fun a b => a.1 ≤ b.1

end Volume

end FileChores
