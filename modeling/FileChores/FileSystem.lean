/-!
# File systems

What a script asks of a file system, and what it may be told. A file system is any machine that
answers one request after another; the laws of a run hold whatever it answers.
-/

namespace FileChores

inductive Refusal
  | noEntry
  | busy
  | crossDevice
  | notDirectory
  | isDirectory
  | invalidArgument
  | nameTooLong
  | notEmpty
  | tooManyLinks
  /-- Only the bytes of a regular file can be copied. -/
  | notRegular
  /-- No path holds a NUL. -/
  | nulInPath
  | other (message : String)
  deriving DecidableEq, Repr

namespace Refusal

def message : Refusal → String
  | noEntry => "No such file or directory (os error 2)"
  | busy => "Device or resource busy (os error 16)"
  | crossDevice => "Invalid cross-device link (os error 18)"
  | notDirectory => "Not a directory (os error 20)"
  | isDirectory => "Is a directory (os error 21)"
  | invalidArgument => "Invalid argument (os error 22)"
  | nameTooLong => "File name too long (os error 36)"
  | notEmpty => "Directory not empty (os error 39)"
  | tooManyLinks => "Too many levels of symbolic links (os error 40)"
  | notRegular => "the source path is neither a regular file nor a symlink to a regular file"
  | nulInPath => "file name contained an unexpected NUL byte"
  | other message => message

end Refusal

inductive FileError
  | notFound (path : String)
  | directoryNotFound (path : String)
  | refused (path : String) (cause : Refusal)
  deriving DecidableEq, Repr

namespace FileError

def message : FileError → String
  | notFound path => s!"File not found: {path}"
  | directoryNotFound path => s!"Directory not found: {path}"
  | refused path cause => s!"{path}: {cause.message}"

end FileError

inductive Request
  | move (source target : String)
  | copy (source target : String)
  | rename (source target : String)
  | delete (path : String)
  | list (path : String)
  | count (path : String)
  | space (path : String)
  deriving DecidableEq, Repr

/-- What a granted request tells: bytes copied, names in a directory, a number of entries, bytes in
use. -/
abbrev Request.Reply : Request → Type
  | move .. | rename .. | delete .. => Unit
  | copy .. | count .. | space .. => Nat
  | list .. => List String

structure Answer (request : Request) where
  result : Except FileError request.Reply
  /-- Why an entry could not be renamed, when its bytes were to be copied instead. -/
  detour : Option Refusal := none

structure FileSystem (σ : Type) where
  answer : (request : Request) → σ → Answer request × σ

end FileChores
