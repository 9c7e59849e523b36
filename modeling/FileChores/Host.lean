import FileChores.FileSystem

/-!
# Hosts

The requests of a script in terms of system calls. What a call does is up to the host. A call that
is refused has changed nothing, with one exception: a copy makes or empties its target before it
reads the first byte, and may be broken off after that.
-/

namespace FileChores

/-- How a copy ends: refused before its target was opened, broken off after that, or done. -/
inductive Copying (σ : Type)
  | refused (cause : Refusal)
  | brokenOff (cause : Refusal) (left : σ)
  | done (bytes : Nat) (left : σ)

namespace Copying

variable {σ : Type}

/-- A copy that nothing breaks off. -/
def ofExcept : Except Refusal (Nat × σ) → Copying σ
  | .error cause => refused cause
  | .ok (bytes, left) => done bytes left

theorem ofExcept_ne_brokenOff (outcome : Except Refusal (Nat × σ)) (cause : Refusal) (left : σ) :
    ofExcept outcome ≠ brokenOff cause left := by
  rcases outcome with _ | ⟨_, _⟩ <;> nofun

theorem eq_ok_of_ofExcept {outcome : Except Refusal (Nat × σ)} {bytes : Nat} {left : σ}
    (h : ofExcept outcome = done bytes left) : outcome = .ok (bytes, left) := by
  rcases outcome with _ | ⟨_, _⟩ <;> cases h
  rfl

end Copying

structure Host (σ : Type) where
  resolves : σ → String → Bool
  isFile : σ → String → Bool
  isDirectory : σ → String → Bool
  rename : σ → String → String → Except Refusal σ
  copy : σ → String → String → Copying σ
  unlink : σ → String → Except Refusal σ
  removeDirectory : σ → String → Except Refusal σ
  names : σ → String → Except Refusal (List String)
  space : σ → String → Except Refusal Nat

namespace Host

variable {σ : Type} (host : Host σ)

def settle (files : σ) (path : String) : Except Refusal σ → Except FileError Unit × σ
  | .ok left => (.ok (), left)
  | .error cause => (.error (.refused path cause), files)

/-- Copies bytes. Every failure is reported under the path of the source. -/
def transfer (files : σ) (source target : String) : Except FileError Nat × σ :=
  match host.copy files source target with
  | .refused cause => (.error (.refused source cause), files)
  | .brokenOff cause left => (.error (.refused source cause), left)
  | .done bytes left => (.ok bytes, left)

def copyInstead (files : σ) (source target : String) (cause : Refusal) :
    Except FileError Unit × Option Refusal × σ :=
  if host.isFile files source then
    match host.transfer files source target with
    | (.error e, left) => (.error e, some cause, left)
    | (.ok _, copied) =>
        let (result, left) := settle copied source (host.unlink copied source)
        (result, some cause, left)
  else (.error (.refused source cause), none, files)

def relocate (files : σ) (source target : String) : Except FileError Unit × Option Refusal × σ :=
  if host.resolves files source then
    match host.rename files source target with
    | .ok left => (.ok (), none, left)
    | .error cause => host.copyInstead files source target cause
  else (.error (.notFound source), none, files)

def copyFile (files : σ) (source target : String) : Except FileError Nat × σ :=
  if host.resolves files source then host.transfer files source target
  else (.error (.notFound source), files)

/-- Whether a path leads to a directory is asked with links followed, and the entry is then removed
without following one. -/
def delete (files : σ) (path : String) : Except FileError Unit × σ :=
  if host.resolves files path then
    settle files path
      (if host.isDirectory files path then host.removeDirectory files path
      else host.unlink files path)
  else (.error (.notFound path), files)

def list (files : σ) (path : String) : Except FileError (List String) :=
  if host.isDirectory files path then (host.names files path).mapError (.refused path)
  else .error (.directoryNotFound path)

def count (files : σ) (path : String) : Except FileError Nat :=
  (host.list files path).map List.length

def checkSpace (files : σ) (path : String) : Except FileError Nat :=
  if host.resolves files path then (host.space files path).mapError (.refused path)
  else .error (.directoryNotFound path)

def fileSystem : FileSystem σ where
  answer
    | .move source target, files | .rename source target, files =>
        let (result, detour, left) := host.relocate files source target
        (⟨result, detour⟩, left)
    | .copy source target, files =>
        let (result, left) := host.copyFile files source target
        (⟨result, none⟩, left)
    | .delete path, files =>
        let (result, left) := host.delete files path
        (⟨result, none⟩, left)
    | .list path, files => (⟨host.list files path, none⟩, files)
    | .count path, files => (⟨host.count files path, none⟩, files)
    | .space path, files => (⟨host.checkSpace files path, none⟩, files)

end Host

end FileChores
