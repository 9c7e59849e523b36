import FileChores.FileSystem

/-!
# Paths

A path as it is spelled: names between slashes, taken from the root or from the working directory.
Repeated slashes count as one, and a slash at the end asks for a directory.
-/

namespace FileChores

structure Path where
  absolute : Bool
  /-- Never empty names; `.` and `..` are kept. -/
  names : List String
  slash : Bool
  deriving DecidableEq, Repr

namespace Path

def pieces : List Char → List (List Char)
  | [] => [[]]
  | '/' :: rest => [] :: pieces rest
  | c :: rest =>
      match pieces rest with
      | [] => [[c]]
      | piece :: others => (c :: piece) :: others

def split (spelling : String) : Path where
  absolute := spelling.toList.head? == some '/'
  names := ((pieces spelling.toList).filter (!·.isEmpty)).map String.ofList
  slash := spelling.toList.getLast? == some '/'

/-- The longest path has one byte less. -/
def maxBytes : Nat := 4096

/-- The longest name of one entry. -/
def maxNameBytes : Nat := 255

/-- The path that a file system is given. No entry has the empty path. -/
def ofString (spelling : String) : Except Refusal Path :=
  if spelling.toList.contains '\x00' then .error .nulInPath
  else if spelling.isEmpty then .error .noEntry
  else if maxBytes ≤ spelling.utf8ByteSize then .error .nameTooLong
  else .ok (split spelling)

/-- The names to follow. A slash at the end is one more step on the spot. -/
def steps (path : Path) : List String :=
  if path.slash then path.names ++ ["."] else path.names

/-- A path with more names behind it. It ends in a slash only when nothing is added. -/
def followedBy (path : Path) : List String → Path
  | [] => path
  | rest => ⟨path.absolute, path.names ++ rest, false⟩

end Path

end FileChores
