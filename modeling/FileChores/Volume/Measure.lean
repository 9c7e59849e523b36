import FileChores.Volume.Lookup

/-!
# Space in use

The space used by a path is the length of every regular file at or below it, added up directory by
directory. Links are not followed and count for nothing, and neither do directories and devices.
-/

namespace FileChores

def Path.join (directory name : String) : String :=
  if directory.toList.getLast? = some '/' then directory ++ name else directory ++ "/" ++ name

namespace Volume

def height (v : Volume) : Nat :=
  v.entries.toList.foldr (fun (place, _) height => max place.length height) 0

theorem length_le_height {v : Volume} {place : Place} {entry : Entry}
    (h : (place, entry) ∈ v.entries.toList) : place.length ≤ v.height := by
  unfold height
  generalize v.entries.toList = entries at h ⊢
  induction entries with
  | nil => cases h
  | cons first rest ih =>
      rw [List.foldr_cons]
      cases h with
      | head => exact Nat.le_max_left ..
      | tail _ h => exact Nat.le_trans (ih h) (Nat.le_max_right ..)

theorem exists_of_mem_names {v : Volume} {place : Place} {name : String}
    (h : name ∈ v.names place) : ∃ entry, (name :: place, entry) ∈ v.entries.toList := by
  obtain ⟨⟨other, entry⟩, hmem, heq⟩ := List.mem_filterMap.1 h
  rcases other with _ | ⟨name', parent⟩
  · cases heq
  · simp only [Option.ite_none_right_eq_some, Option.some.injEq] at heq
    obtain ⟨rfl, rfl⟩ := heq
    exact ⟨entry, hmem⟩

/-- The space used at a place. An entry below is asked for by the path that names it from the
directory it is found in, and that path has to stay within the limit. -/
def spaceFrom (v : Volume) (spelling : String) (place : Place) : Except Refusal Nat :=
  if Path.maxBytes ≤ spelling.utf8ByteSize then .error .nameTooLong
  else
    match v.entry? place with
    | none => .error .noEntry
    | some .directory =>
        (v.names place).attach.foldlM
          (fun total ⟨name, _⟩ => do
            return total + (← spaceFrom v (Path.join spelling name) (name :: place))) 0
    | some entry => .ok entry.size
  termination_by v.height - place.length
  decreasing_by
    obtain ⟨entry, hentry⟩ := exists_of_mem_names ‹_›
    have := length_le_height hentry
    simp only [List.length_cons] at *
    omega

def space (v : Volume) (spelling : String) : Except Refusal Nat := do
  v.spaceFrom spelling (← v.entryAt spelling)

end Volume

end FileChores
