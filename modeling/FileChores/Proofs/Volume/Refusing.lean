import FileChores.Proofs.Host
import FileChores.Proofs.Volume.Copying
import FileChores.Proofs.Volume.Slots

/-!
# Requests that fail

A request that fails leaves the volume as it was. It says that its first path is missing just when
that path does not lead to what the request needs, and otherwise tells why the volume refused it.
-/

namespace FileChores.Volume

variable {v : Volume}

/-- The first path of a request leads to what the request needs. -/
def Meets (v : Volume) : Request → Prop
  | .list path | .count path =>
      ∃ place, v.resolve path = .ok place ∧ v.entry? place = some .directory
  | request => ∃ place, v.resolve request.path = .ok place

/-! ## Unlinking what has been copied -/

structure Removable (v : Volume) (spelling : String) (directory : Place) (name : String) :
    Prop where
  leads : ∃ path front, Path.ofString spelling = .ok path ∧ path.names = front ++ [name] ∧
    path.slash = false ∧ v.Leads maxLinks (origin path v.home) front (.present directory)
  isDirectory : v.entry? directory = some .directory
  lookedUp : IsLookedUp name
  entry : ∃ entry, v.entry? (name :: directory) = some entry ∧ entry ≠ .directory

section

variable {spelling name : String} {directory : Place}

theorem Removable.slot (h : v.Removable spelling directory name) :
    v.slot spelling = .ok ⟨directory, .name name, false⟩ := by
  obtain ⟨path, front, hpath, hnames, hslash, hleads⟩ := h.leads
  rw [slot_of_leads hpath hnames hleads h.isDirectory, hslash,
    Last.ofName_of_ne h.lookedUp.ne_here h.lookedUp.ne_parent]

theorem Removable.unlinkable (h : v.Removable spelling directory name) :
    v.unlinkable spelling = .ok (name :: directory) := by
  obtain ⟨entry, hentry, hdirectory⟩ := h.entry
  have hchild : v.child directory name = .ok (some entry) := by
    rw [child, if_neg (Nat.not_lt.2 h.lookedUp.size_le), hentry]
  unfold Volume.unlinkable
  rw [h.slot]
  cases entry with
  | directory => exact absurd rfl hdirectory
  | file | link | nullDevice => simp [bind, Except.bind, hchild]

theorem Removable.unlink (h : v.Removable spelling directory name) :
    v.unlink spelling = .ok (v.remove (name :: directory)) := by
  unfold Volume.unlink
  rw [h.unlinkable]
  rfl

theorem Removable.put (h : v.Removable spelling directory name) {target : Place}
    (htarget : v.TakesFile target) (content : ByteArray) :
    (v.put target (.file content)).Removable spelling directory name := by
  obtain ⟨path, front, hpath, hnames, hslash, hleads⟩ := h.leads
  refine ⟨⟨path, front, hpath, hnames, hslash, ?_⟩,
    htarget.entry?_put_directory content h.isDirectory, h.lookedUp, ?_⟩
  · exact htarget.leads_put content hleads fun _ _ h => by cases h
  · rw [entry?_put htarget.1]
    split
    · exact ⟨_, rfl, fun h => by cases h⟩
    · exact h.entry

theorem exists_removable (hv : v.WellFormed) {place : Place} {content : ByteArray}
    (hplace : v.resolve spelling = .ok place) (hfile : v.entry? place = some (.file content)) :
    ∃ directory name, v.Removable spelling directory name := by
  obtain ⟨directory, name, hslot, hdirectory, hname, -, hfinal⟩ :=
    exists_slot_of_file hv hplace hfile
  obtain ⟨path, front, hpath, hnames, hslash, -, -, hleads, -⟩ := exists_leads_of_slot hslot
  exact ⟨directory, name, ⟨path, front, hpath, hnames, hslash, hleads⟩, hdirectory, hname,
    hfinal.exists_entry hv hdirectory hfile⟩

end

/-- The second half of a detour never fails. -/
theorem unlink_of_copy (hv : v.WellFormed) {v' : Volume} {source target : String} {n : Nat}
    (h : v.copy source target = .ok (n, v')) : ∃ left, v'.unlink source = .ok left := by
  obtain ⟨place, content, spot, hcopies, htransfer⟩ := exists_copies h
  obtain ⟨directory, name, hremovable⟩ := exists_removable hv hcopies.resolve hcopies.entry
  rcases transfer_cases hcopies.entry (opened_of_writable hv hcopies.writable) with
    ⟨_, _, _, hput⟩ | ⟨htakes, hput⟩
  · obtain ⟨-, rfl⟩ := Prod.mk.inj (hput.symm.trans htransfer)
    exact ⟨_, hremovable.unlink⟩
  · obtain ⟨-, rfl⟩ := Prod.mk.inj (hput.symm.trans htransfer)
    exact ⟨_, (hremovable.put htakes _).unlink⟩

/-! ## What fails and how -/

variable {request : Request}

theorem resolves_iff {spelling : String} :
    v.resolves spelling = true ↔ ∃ place, v.resolve spelling = .ok place := by
  unfold resolves
  cases v.resolve spelling <;> simp [Except.isOk, Except.toBool]

theorem host_isDirectory_iff {path : String} : host.isDirectory v path = true ↔
    ∃ place, v.resolve path = .ok place ∧ v.entry? place = some .directory := by
  cases hplace : v.resolve path with
  | error => simp [host_isDirectory_of_not_resolve hplace]
  | ok place => simp [host_isDirectory_of_resolve hplace, isDirectory_iff]

theorem host_meets_iff : host.Meets v request ↔ v.Meets request := by
  cases request with
  | list path | count path => exact host_isDirectory_iff
  | move | copy | rename | delete | space => exact resolves_iff

theorem not_breaksOff {source target : String} {left : Volume} :
    ¬ host.BreaksOff v source target left := by
  rintro ⟨cause, h⟩
  exact Copying.ofExcept_ne_brokenOff _ _ _ h

theorem copy_of_host {source target : String} {bytes : Nat} {left : Volume}
    (h : host.copy v source target = .done bytes left) :
    v.copy source target = .ok (bytes, left) :=
  Copying.eq_ok_of_ofExcept h

/-- As no copy is broken off, and what has been copied can be removed, nothing is left behind. -/
theorem not_leaves (hv : v.WellFormed) {left : Volume} : ¬ host.Leaves v request left := by
  intro h
  cases h with
  | copy _ hcopy | broken _ _ hcopy => exact not_breaksOff hcopy
  | kept _ _ hcopy hunlink =>
      obtain ⟨_, hleft⟩ := unlink_of_copy hv (copy_of_host hcopy)
      cases hunlink.symm.trans hleft

theorem answer_missing (h : ¬ v.Meets request) :
    (fileSystem.answer request v).1.result = .error request.missing ∧
      (fileSystem.answer request v).2 = v :=
  Prod.mk.inj ((host.answer_refuses v request).missing (mt host_meets_iff.1 h))

theorem answer_refused (hv : v.WellFormed) (h : v.Meets request) {e : FileError}
    (he : (fileSystem.answer request v).1.result = .error e) :
    (∃ cause, e = .refused request.path cause) ∧ (fileSystem.answer request v).2 = v := by
  obtain ⟨hcause, hleft⟩ := (host.answer_refuses v request).refused (host_meets_iff.2 h) e he
  exact ⟨hcause, hleft.resolve_right (not_leaves hv)⟩

end FileChores.Volume
