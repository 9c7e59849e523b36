import FileChores.Proofs.Volume.Requests
import FileChores.Proofs.Volume.Tree

/-!
# What a copy leaves

A copy changes the file that its target leads to and nothing else. Source and target then hold the
bytes of the source, unless both paths lead to one file: that file is empty.
-/

namespace FileChores.Volume

variable {v v' : Volume} {source target : String} {n : Nat}

theorem fileAt?_eq_some_iff {place : Place} {content : ByteArray} :
    v.fileAt? place = some content ↔ v.entry? place = some (.file content) := by
  unfold fileAt?
  split <;> simp_all

structure Copies (v : Volume) (source target : String) (place : Place) (content : ByteArray)
    (spot : Spot) : Prop where
  resolve : v.resolve source = .ok place
  entry : v.entry? place = some (.file content)
  writable : v.writable target = .ok spot

theorem exists_copies (h : v.copy source target = .ok (n, v')) :
    ∃ place content spot, v.Copies source target place content spot ∧
      v.transfer place content spot = (n, v') := by
  unfold copy at h
  cases hplace : v.resolve source with
  | error => rw [hplace] at h; cases h
  | ok place =>
      rw [hplace] at h
      cases hcontent : v.fileAt? place with
      | none => simp [bind, Except.bind, hcontent] at h
      | some content =>
          cases hspot : v.writable target with
          | error => simp [bind, Except.bind, hcontent, hspot] at h
          | ok spot =>
              simp only [bind, Except.bind, hcontent, hspot] at h
              exact ⟨place, content, spot, ⟨hplace, fileAt?_eq_some_iff.1 hcontent, hspot⟩,
                Except.ok.inj h⟩

/-- What is written when the bytes of the file at `place` go to another place or to its own. -/
def copied (place written : Place) (content : ByteArray) : ByteArray :=
  if written = place then .empty else content

theorem transfer_cases {place : Place} {content : ByteArray} {spot : Spot}
    (hplace : v.entry? place = some (.file content)) (hspot : v.Opened spot) :
    (∃ written, spot = .present written ∧ v.entry? written = some .nullDevice ∧
      v.transfer place content spot = (content.size, v)) ∨
    v.TakesFile spot.place ∧ v.transfer place content spot =
      ((copied place spot.place content).size,
        v.put spot.place (.file (copied place spot.place content))) := by
  cases hspot with
  | device h => exact .inl ⟨_, rfl, h, by rw [transfer, h]⟩
  | file hroot h =>
      refine .inr ⟨⟨hroot, .inr ⟨_, h⟩⟩, ?_⟩
      rw [transfer, Spot.place, h]
      rfl
  | @new directory name h =>
      have hother : copied place (name :: directory) content = content := by
        refine if_neg ?_
        rintro rfl
        cases hplace.symm.trans h
      refine .inr ⟨⟨List.cons_ne_nil _ _, .inl h⟩, ?_⟩
      rw [transfer, Spot.place, hother]

theorem read_of_resolve {spelling : String} {place : Place} {content : ByteArray}
    (hplace : v.resolve spelling = .ok place) (hentry : v.entry? place = some (.file content)) :
    v.read spelling = .ok content := by
  simp [read, hplace, bind, Except.bind, hentry]

theorem copy_of_copyFile (h : v.copyFile source target = (.ok n, v')) :
    v.copy source target = .ok (n, v') := by
  rw [copyFile_eq] at h
  split at h
  · cases hcopy : v.copy source target with
    | error => rw [hcopy] at h; cases h
    | ok copied => rw [hcopy] at h; cases h; rfl
  · cases h

theorem copied_eq_iff {place written : Place} {content : ByteArray} :
    copied place written content = content ↔ written ≠ place ∨ content = .empty := by
  unfold copied
  split <;> simp_all [eq_comm]

section

variable {place : Place} {content : ByteArray} {spot : Spot}

theorem Copies.resolve_eq_iff (hv : v.WellFormed) (h : v.Copies source target place content spot) :
    v.resolve source = v.resolve target ↔ spot.place = place := by
  rw [h.resolve, resolve_of_writable h.writable]
  cases opened_of_writable hv h.writable with
  | device | file => simp [Spot.place?, Spot.place, eq_comm]
  | @new directory name hentry =>
      simp only [Spot.place?, Spot.place, reduceCtorEq, false_iff]
      rintro rfl
      cases h.entry.symm.trans hentry

theorem Copies.read_put (h : v.Copies source target place content spot)
    (htakes : v.TakesFile spot.place) {written : ByteArray}
    (hwritten : written = copied place spot.place content) :
    (v.put spot.place (.file written)).read source = .ok written ∧
      (v.put spot.place (.file written)).read target = .ok written := by
  refine ⟨read_of_resolve (htakes.resolve_put written h.resolve) ?_,
    read_of_resolve (resolve_put_of_writable h.writable htakes written) ?_⟩
  · rw [entry?_put htakes.1]
    split
    · rfl
    · next hother => rw [h.entry, hwritten, copied, if_neg hother]
  · exact htakes.entry?_put_self written

end

/-- A copy touches the file that its target leads to and nothing else. It is faithful just when
another file than the source is written, or when there is nothing to lose. -/
theorem copyFile_faithful_iff (hv : v.WellFormed)
    (htarget : ∀ place, v.resolve target = .ok place → v.entry? place ≠ some .nullDevice)
    (h : v.copyFile source target = (.ok n, v')) :
    ∃ content written, v.read source = .ok content ∧ v'.resolve target = .ok written ∧
      v.TakesFile written ∧ v'.home = v.home ∧
      (∀ other, other ≠ written → v'.entry? other = v.entry? other) ∧
      (n = content.size ∧ v'.read source = .ok content ∧ v'.read target = .ok content ↔
        v.resolve source ≠ v.resolve target ∨ content = .empty) ∧
      (v.resolve source = v.resolve target →
        n = 0 ∧ v'.read source = .ok .empty ∧ v'.read target = .ok .empty) := by
  obtain ⟨place, content, spot, hcopies, htransfer⟩ := exists_copies (copy_of_copyFile h)
  have hsame := hcopies.resolve_eq_iff hv
  rcases transfer_cases hcopies.entry (opened_of_writable hv hcopies.writable) with
    ⟨written, rfl, hdevice, -⟩ | ⟨htakes, hput⟩
  · exact absurd hdevice (htarget written (resolve_of_writable hcopies.writable))
  obtain ⟨rfl, rfl⟩ := Prod.mk.inj (hput.symm.trans htransfer)
  obtain ⟨hsource, hread⟩ := hcopies.read_put htakes rfl
  refine ⟨content, spot.place, read_of_resolve hcopies.resolve hcopies.entry,
    resolve_put_of_writable hcopies.writable htakes _, htakes, rfl, fun other hother => ?_, ?_, ?_⟩
  · rw [entry?_put htakes.1, if_neg hother.symm]
  · rw [hsource, hread, Ne, hsame, ← copied_eq_iff]
    constructor
    · rintro ⟨-, h, -⟩
      exact Except.ok.inj h
    · intro h
      rw [h]
      exact ⟨rfl, rfl, rfl⟩
  · intro h
    rw [hsource, hread, copied, if_pos (hsame.1 h)]
    exact ⟨rfl, rfl, rfl⟩

theorem copyFile_faithful_iff_new :
    ∃ n v' content, single.copyFile "a" "b" = (.ok n, v') ∧ single.read "a" = .ok content ∧
      n = content.size ∧ v'.read "a" = .ok content ∧ v'.read "b" = .ok content := by
  have htarget : single.resolve "b" = .error .noEntry := by cbv
  have hcopy : single.copyFile "a" "b" = (.ok 5, single.put ["b", "home"] (.file digits)) := by
    cbv
  obtain ⟨content, -, hcontent, -, -, -, -, hfaithful, -⟩ :=
    copyFile_faithful_iff wellFormed_single (fun _ h => by rw [htarget] at h; cases h) hcopy
  have hother : single.resolve "a" ≠ single.resolve "b" := by
    rw [htarget, resolve_single]
    exact fun h => by cases h
  exact ⟨_, _, content, hcopy, hcontent, hfaithful.2 (.inl hother)⟩

/-- A file that is copied onto itself is lost. -/
theorem copyFile_onto_itself :
    single.WellFormed ∧ single.read "a" = .ok digits ∧
      (single.copyFile "a" "a").1 = .ok 0 ∧ (single.copyFile "a" "a").2.read "a" = .ok .empty := by
  have hcopy : single.copyFile "a" "a" = (.ok 0, single.put ["a", "home"] (.file .empty)) := by
    cbv
  have htakes : single.TakesFile ["a", "home"] :=
    ⟨List.cons_ne_nil _ _, .inr ⟨digits, entry?_single⟩⟩
  rw [hcopy]
  exact ⟨wellFormed_single, read_of_resolve resolve_single entry?_single, rfl,
    read_of_resolve (htakes.resolve_put _ resolve_single) (htakes.entry?_put_self _)⟩

end FileChores.Volume
