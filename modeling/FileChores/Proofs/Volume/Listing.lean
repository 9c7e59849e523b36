import FileChores.Proofs.Text.Ascending
import FileChores.Proofs.Volume.Emptying

/-!
# Listing and counting

A directory is listed and counted by reading it entry by entry, in an order that nobody promises.
The names are sorted afterwards, so the list does not tell in which order they were read, and the
count is its length.
-/

namespace FileChores.Volume

variable {v : Volume} {place : Place}

/-! ## Reading a directory -/

/-- The list made of what reading a directory yields. The first entry that cannot be read ends
it. -/
def gather (read : List (Except Refusal String)) : Except Refusal (List String) := do
  let names ← read.foldlM (fun names entry => return names ++ [← entry]) []
  return Text.sortBy id names

/-- The number made of what reading a directory yields. -/
def tally (read : List (Except Refusal String)) : Except Refusal Nat :=
  read.foldlM (fun count entry => do let _ ← entry; return count + 1) 0

theorem foldlM_tally (read : List (Except Refusal String)) (names : List String) :
    read.foldlM (fun count entry => do let _ ← entry; return count + 1) names.length =
      (read.foldlM (fun names entry => return names ++ [← entry]) names).map List.length := by
  induction read generalizing names with
  | nil => rfl
  | cons entry read ih =>
      rw [List.foldlM_cons, List.foldlM_cons]
      cases entry with
      | error => rfl
      | ok name =>
          have hlength : names.length + 1 = (names ++ [name]).length := by simp
          simp only [bind, Except.bind, pure, Except.pure, hlength]
          exact ih (names ++ [name])

/-- Whatever is read, the list and the count fail alike, or the count is that of the list. -/
theorem tally_eq (read : List (Except Refusal String)) :
    tally read = (gather read).map List.length := by
  have h := foldlM_tally read []
  rw [tally, gather, ← List.length_nil (α := String), h]
  cases read.foldlM (fun names entry => return names ++ [← entry]) ([] : List String) with
  | error => rfl
  | ok names => exact congrArg Except.ok (Text.perm_sortBy id names).length_eq.symm

theorem foldlM_gather (order names : List String) :
    (order.map .ok).foldlM (m := Except Refusal) (fun names entry => return names ++ [← entry])
      names = .ok (names ++ order) := by
  induction order generalizing names with
  | nil => rw [List.append_nil]; rfl
  | cons name order ih =>
      rw [List.map_cons, List.foldlM_cons]
      simp only [bind, Except.bind, pure, Except.pure]
      exact (ih (names ++ [name])).trans (by rw [List.append_assoc]; rfl)

theorem gather_ok (order : List String) : gather (order.map .ok) = .ok (Text.sortBy id order) := by
  rw [gather, foldlM_gather]
  rfl

/-! ## The entries of a directory -/

/-- An order in which a directory may be read: every entry turns up once, and nothing else. -/
structure Enumerates (v : Volume) (place : Place) (order : List String) : Prop where
  once : order.Nodup
  mem_iff : ∀ name, name ∈ order ↔ ∃ entry, v.entry? (name :: place) = some entry

theorem enumerates_names : v.Enumerates place (v.names place) where
  once := nodup_names place
  mem_iff _ := mem_names_iff.trans Option.ne_none_iff_exists'

theorem ascending_names : Text.Ascending id (v.names place) :=
  Text.ascending_iff_compare.2 (pairwise_names place)

theorem Enumerates.sortBy_eq {order : List String} (h : v.Enumerates place order) :
    Text.sortBy id order = v.names place := by
  refine ascending_names.sortBy_eq_of_mem_iff ?_ fun name => ?_
  · rw [List.map_id]
    exact h.once
  · exact (h.mem_iff name).trans (enumerates_names.mem_iff name).symm

/-! ## What is answered -/

def LeadsToDirectory (v : Volume) (path : String) : Prop :=
  ∃ place, v.resolve path = .ok place ∧ v.entry? place = some .directory

theorem answer_list_count_error {path : String} (h : ¬ v.LeadsToDirectory path) :
    fileSystem.answer (.list path) v = (⟨.error (.directoryNotFound path), none⟩, v) ∧
      fileSystem.answer (.count path) v = (⟨.error (.directoryNotFound path), none⟩, v) := by
  have hmeets : ¬ v.Meets (.list path) ∧ ¬ v.Meets (.count path) := ⟨h, h⟩
  have hlist : v.list path = .error (.directoryNotFound path) := (answer_missing hmeets.1).1
  have hcount : v.count path = .error (.directoryNotFound path) := (answer_missing hmeets.2).1
  constructor
  · rw [answer_list_def, hlist]
  · rw [answer_count_def, hcount]

/-- Of whatever is read, the list and the count fail alike, or the count is that of the list. A path
is listed and counted, or it leads to no directory and neither is done. The list holds the names of
the entries, each once and in the order of their bytes, and the count is its length: this is what
both readings give, in whatever order they meet the entries. Nothing changes. -/
theorem answer_list_count (hv : v.WellFormed) (path : String) :
    (∀ read, tally read = (gather read).map List.length) ∧
    ((¬ v.LeadsToDirectory path ∧
      fileSystem.answer (.list path) v = (⟨.error (.directoryNotFound path), none⟩, v) ∧
      fileSystem.answer (.count path) v = (⟨.error (.directoryNotFound path), none⟩, v)) ∨
    ∃ place names, v.resolve path = .ok place ∧ v.entry? place = some .directory ∧
      fileSystem.answer (.list path) v = (⟨.ok names, none⟩, v) ∧
      fileSystem.answer (.count path) v = (⟨.ok names.length, none⟩, v) ∧
      v.Enumerates place names ∧ "." ∉ names ∧ ".." ∉ names ∧ Text.Ascending id names ∧
      ∀ order, v.Enumerates place order → gather (order.map .ok) = .ok names ∧
        tally (order.map .ok) = .ok names.length) := by
  refine ⟨tally_eq, ?_⟩
  by_cases h : v.LeadsToDirectory path
  · obtain ⟨place, hplace, hdirectory⟩ := h
    have hproper (name : String) (hname : name ∈ v.names place) : name ≠ "." ∧ name ≠ ".." := by
      obtain ⟨-, hhere, hparent, -⟩ := hv.name name place (mem_names_iff.1 hname)
      exact ⟨hhere, hparent⟩
    refine .inr ⟨place, v.names place, hplace, hdirectory, answer_list_eq hplace hdirectory,
      answer_count_eq hplace hdirectory, enumerates_names, fun hmem => (hproper _ hmem).1 rfl,
      fun hmem => (hproper _ hmem).2 rfl, ascending_names, fun order horder => ?_⟩
    have hgather : gather (order.map .ok) = .ok (v.names place) := by
      rw [gather_ok, horder.sortBy_eq]
    exact ⟨hgather, by rw [tally_eq, hgather]; rfl⟩
  · exact .inl ⟨h, answer_list_count_error h⟩

/-- The entries are met in reverse order, two links among them that lead to no file. -/
theorem answer_list_count_littered :
    littered.WellFormed ∧
      fileSystem.answer (.list ".") littered =
        (⟨.ok ["a", "e", "g", "l", "n"], none⟩, littered) ∧
      fileSystem.answer (.count ".") littered = (⟨.ok 5, none⟩, littered) ∧
      gather (["n", "l", "g", "e", "a"].map .ok) = .ok ["a", "e", "g", "l", "n"] ∧
      tally (["n", "l", "g", "e", "a"].map .ok) = .ok 5 := by
  have hresolve : littered.resolve "." = .ok ["home"] := by cbv
  have hhome : littered.entry? ["home"] = some .directory := by cbv
  have hnames : littered.names ["home"] = ["a", "e", "g", "l", "n"] := by cbv
  have hsorted := answer_list_eq hresolve hhome
  rw [hnames] at hsorted
  obtain ⟨-, ⟨hnowhere, -⟩ |
    ⟨place, names, hplace, -, hlist, hcount, henumerates, -, -, -, hany⟩⟩ :=
    answer_list_count wellFormed_littered "."
  · exact absurd ⟨_, hresolve, hhome⟩ hnowhere
  · obtain rfl : names = ["a", "e", "g", "l", "n"] := by
      rw [hsorted] at hlist
      cases hlist
      rfl
    obtain ⟨honce, hmem⟩ := henumerates
    have hreverse : littered.Enumerates place ["n", "l", "g", "e", "a"] :=
      ⟨List.nodup_reverse.2 honce, fun name => List.mem_reverse.trans (hmem name)⟩
    exact ⟨wellFormed_littered, hsorted, hcount, hany _ hreverse⟩

end FileChores.Volume
