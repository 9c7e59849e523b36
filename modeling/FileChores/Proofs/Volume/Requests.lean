import FileChores.Volume.FileSystem

/-!
# The requests on a volume

What each request of a script comes to on a volume, call by call.
-/

namespace FileChores.Volume

variable {v : Volume}

theorem transfer_eq (source target : String) :
    host.transfer v source target =
      match v.copy source target with
      | .error cause => (.error (.refused source cause), v)
      | .ok (bytes, left) => (.ok bytes, left) := by
  have hcopy : host.copy v source target = .ofExcept (v.copy source target) := rfl
  unfold Host.transfer
  rw [hcopy]
  rcases v.copy source target with cause | ⟨bytes, left⟩ <;> rfl

theorem relocate_eq (source target : String) :
    v.relocate source target =
      if v.resolves source then
        match v.rename source target with
        | .ok left => (.ok (), none, left)
        | .error cause =>
            if v.isFile source then
              match v.copy source target with
              | .error cause' => (.error (.refused source cause'), some cause, v)
              | .ok (_, copied) =>
                  let (result, left) := Host.settle copied source (copied.unlink source)
                  (result, some cause, left)
            else (.error (.refused source cause), none, v)
      else (.error (.notFound source), none, v) := by
  have hrename : host.rename v source target = v.rename source target := rfl
  rw [relocate, Host.relocate, hrename]
  simp only [Host.copyInstead, transfer_eq]
  rcases v.rename source target with cause | left <;>
    rcases v.copy source target with cause' | ⟨bytes, copied⟩ <;> rfl

theorem copyFile_eq (source target : String) :
    v.copyFile source target =
      if v.resolves source then
        match v.copy source target with
        | .error cause => (.error (.refused source cause), v)
        | .ok (bytes, left) => (.ok bytes, left)
      else (.error (.notFound source), v) := by
  rw [copyFile, Host.copyFile, transfer_eq]
  rfl

theorem host_isDirectory_of_resolve {path : String} {place : Place}
    (hplace : v.resolve path = .ok place) : host.isDirectory v path = v.isDirectory place := by
  simp only [host, hplace]

theorem host_isDirectory_of_not_resolve {path : String} {cause : Refusal}
    (hplace : v.resolve path = .error cause) : host.isDirectory v path = false := by
  simp only [host, hplace]

theorem delete_eq (path : String) :
    v.delete path =
      match v.resolve path with
      | .error _ => (.error (.notFound path), v)
      | .ok place => Host.settle v path
          (if v.isDirectory place then v.removeDirectory path else v.unlink path) := by
  have hresolves : host.resolves v path = (v.resolve path).isOk := rfl
  cases hplace : v.resolve path with
  | error => rw [delete, Host.delete, hresolves, hplace]; rfl
  | ok place =>
      rw [delete, Host.delete, hresolves, hplace, host_isDirectory_of_resolve hplace]
      rfl

def directory (v : Volume) (path : String) : Except FileError Place :=
  match v.resolve path with
  | .ok place => if v.isDirectory place then .ok place else .error (.directoryNotFound path)
  | .error _ => .error (.directoryNotFound path)

theorem list_eq (path : String) : v.list path = (v.directory path).map v.names := by
  cases hplace : v.resolve path with
  | error =>
      rw [list, Host.list, host_isDirectory_of_not_resolve hplace, directory, hplace]
      rfl
  | ok place =>
      rw [list, Host.list, host_isDirectory_of_resolve hplace, directory, hplace]
      by_cases hdirectory : v.isDirectory place = true
      · have hnames : host.names v path = .ok (v.names place) := by
          simp only [host, hplace, bind, Except.bind, hdirectory, if_true]
        simp only [hdirectory, if_true, hnames]
        rfl
      · simp only [hdirectory, Bool.false_eq_true, if_false, Except.map]

theorem count_eq (path : String) :
    v.count path = (v.directory path).map fun place => (v.names place).length := by
  have hlist : v.count path = (v.list path).map List.length := rfl
  rw [hlist, list_eq]
  cases v.directory path <;> rfl

theorem answer_list_def (path : String) :
    fileSystem.answer (.list path) v = (⟨v.list path, none⟩, v) :=
  rfl

theorem answer_count_def (path : String) :
    fileSystem.answer (.count path) v = (⟨v.count path, none⟩, v) :=
  rfl

theorem answer_space_def (path : String) :
    fileSystem.answer (.space path) v = (⟨v.checkSpace path, none⟩, v) :=
  rfl

theorem checkSpace_eq (path : String) :
    v.checkSpace path =
      if v.resolves path then (v.space path).mapError (.refused path)
      else .error (.directoryNotFound path) :=
  rfl

end FileChores.Volume
