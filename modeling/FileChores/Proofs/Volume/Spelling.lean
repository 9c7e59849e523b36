import FileChores.Proofs.Volume.Measuring

/-!
# A directory spelled in several ways

What is told of a directory depends on where its path leads and not on how the path is spelled. For
the space in use this needs that the path does not name a link, which would be measured in place of
the directory, and that the paths joined to it on the way stay within the limit.
-/

namespace FileChores.Volume

variable {v : Volume}

/-- The path ends in the name of a link, which is followed by those who look for a directory and is
measured by those who measure. -/
def NamesLink (v : Volume) (path : String) : Prop :=
  ∃ found target, v.entryAt path = .ok found ∧ v.entry? found = some (.link target)

section

variable {path : String} {place : Place} (hplace : v.resolve path = .ok place)

include hplace

theorem entryAt_of_not_namesLink (hlink : ¬ v.NamesLink path) : v.entryAt path = .ok place :=
  entryAt_of_resolve hplace fun found target hfound hentry => hlink ⟨found, target, hfound, hentry⟩

variable (hdirectory : v.entry? place = some .directory)

include hdirectory

theorem directory_of_resolve : v.directory path = .ok place := by
  unfold directory
  rw [hplace]
  exact if_pos (isDirectory_iff.2 hdirectory)

theorem answer_list_eq :
    fileSystem.answer (.list path) v = (⟨.ok (v.names place), none⟩, v) := by
  rw [answer_list_def, list_eq, directory_of_resolve hplace hdirectory]
  rfl

theorem answer_count_eq :
    fileSystem.answer (.count path) v = (⟨.ok (v.names place).length, none⟩, v) := by
  rw [answer_count_def, count_eq, directory_of_resolve hplace hdirectory]
  rfl

variable (hlink : ¬ v.NamesLink path)

include hlink

theorem answer_space_measures :
    ∃ total, v.Measures path place total ∧
      fileSystem.answer (.space path) v = (⟨total.mapError (.refused path), none⟩, v) := by
  have hroot : v.entry? place ≠ none := by
    rw [hdirectory]
    exact Option.some_ne_none _
  exact ⟨_, spaceFrom_measures path place hroot,
    answer_space_eq hplace (entryAt_of_not_namesLink hplace hlink)⟩

theorem answer_space_of_fits (hfits : v.Fits path place) :
    fileSystem.answer (.space path) v = (⟨.ok (v.lengthWithin place), none⟩, v) := by
  obtain ⟨total, hmeasures, hanswer⟩ := answer_space_measures hplace hdirectory hlink
  rw [hanswer, hmeasures.ok hfits]
  rfl

theorem answer_space_of_not_fits (hfits : ¬ v.Fits path place) :
    fileSystem.answer (.space path) v = (⟨.error (.refused path .nameTooLong), none⟩, v) := by
  obtain ⟨total, hmeasures, hanswer⟩ := answer_space_measures hplace hdirectory hlink
  rw [hanswer, hmeasures.error hfits]
  rfl

end

/-- Two paths to one directory list and count the same, and use the same space as long as neither
names a link and no path joined on the way is too long. -/
theorem answer_same_directory {p q : String} {place : Place} (hp : v.resolve p = .ok place)
    (hq : v.resolve q = .ok place) (hdirectory : v.entry? place = some .directory) :
    (∃ names, fileSystem.answer (.list p) v = (⟨.ok names, none⟩, v) ∧
      fileSystem.answer (.list q) v = (⟨.ok names, none⟩, v)) ∧
    (∃ n, fileSystem.answer (.count p) v = (⟨.ok n, none⟩, v) ∧
      fileSystem.answer (.count q) v = (⟨.ok n, none⟩, v)) ∧
    (¬ v.NamesLink p → ¬ v.NamesLink q → v.Fits p place → v.Fits q place →
      ∃ bytes, fileSystem.answer (.space p) v = (⟨.ok bytes, none⟩, v) ∧
        fileSystem.answer (.space q) v = (⟨.ok bytes, none⟩, v)) ∧
    (¬ v.NamesLink p → ¬ v.Fits p place →
      fileSystem.answer (.space p) v = (⟨.error (.refused p .nameTooLong), none⟩, v)) := by
  refine ⟨⟨_, answer_list_eq hp hdirectory, answer_list_eq hq hdirectory⟩,
    ⟨_, answer_count_eq hp hdirectory, answer_count_eq hq hdirectory⟩,
    fun hlink hlink' hfits hfits' => ?_, fun hlink hfits => ?_⟩
  · exact ⟨_, answer_space_of_fits hp hdirectory hlink hfits,
      answer_space_of_fits hq hdirectory hlink' hfits'⟩
  · exact answer_space_of_not_fits hp hdirectory hlink hfits

/-! ## The working directory, through a link to it -/

theorem resolve_looped : looped.resolve "." = .ok ["home"] := by cbv

theorem entryAt_looped : looped.entryAt "." = .ok ["home"] := by cbv

theorem entry?_looped : looped.entry? ["home"] = some .directory := by cbv

theorem fits_looped {path : String} (hsize : path.utf8ByteSize < Path.maxBytes)
    (hfile : (Path.join path "a").utf8ByteSize < Path.maxBytes)
    (hlink : (Path.join path "l").utf8ByteSize < Path.maxBytes) : looped.Fits path ["home"] := by
  have hflat : ∀ name ∈ looped.names ["home"],
      looped.entry? [name, "home"] ≠ some .directory := by
    rw [names_looped]
    refine List.forall_mem_cons.2 ⟨?_, List.forall_mem_singleton.2 ?_⟩
    all_goals
      cbv
      exact fun h => by cases h
  rw [fits_flat_iff entry?_looped hflat, names_looped]
  exact ⟨hsize, List.forall_mem_cons.2 ⟨hfile, List.forall_mem_singleton.2 hlink⟩⟩

theorem not_namesLink_looped {path : String} (hentry : looped.entryAt path = .ok ["home"]) :
    ¬ looped.NamesLink path := by
  rintro ⟨found, target, hfound, hlink⟩
  cases hentry.symm.trans hfound
  cases hlink

theorem answer_same_directory_looped :
    looped.resolve "." = .ok ["home"] ∧ looped.resolve "l/" = .ok ["home"] ∧
      looped.entry? ["home"] = some .directory ∧
      (∃ names, fileSystem.answer (.list ".") looped = (⟨.ok names, none⟩, looped) ∧
        fileSystem.answer (.list "l/") looped = (⟨.ok names, none⟩, looped)) ∧
      (∃ n, fileSystem.answer (.count ".") looped = (⟨.ok n, none⟩, looped) ∧
        fileSystem.answer (.count "l/") looped = (⟨.ok n, none⟩, looped)) ∧
      ∃ bytes, fileSystem.answer (.space ".") looped = (⟨.ok bytes, none⟩, looped) ∧
        fileSystem.answer (.space "l/") looped = (⟨.ok bytes, none⟩, looped) := by
  have hslash : looped.resolve "l/" = .ok ["home"] := by cbv
  obtain ⟨hlist, hcount, hspace, -⟩ := answer_same_directory resolve_looped hslash entry?_looped
  refine ⟨resolve_looped, hslash, entry?_looped, hlist, hcount, hspace ?_ ?_ ?_ ?_⟩
  · exact not_namesLink_looped entryAt_looped
  · exact not_namesLink_looped (by cbv)
  · exact fits_looped (by cbv) (by cbv) (by cbv)
  · exact fits_looped (by cbv) (by cbv) (by cbv)

theorem lengthWithin_looped : looped.lengthWithin ["home"] = 5 := by
  have hfile : looped.entry? ["a", "home"] = some (.file digits) := by cbv
  have hlink : looped.entry? ["l", "home"] = some (.link ".") := by cbv
  rw [lengthWithin_directory rfl, names_looped, List.map_cons, List.map_singleton, List.sum_cons,
    List.sum_singleton, lengthWithin_entry hfile (fun h => by cases h),
    lengthWithin_entry hlink (fun h => by cases h)]
  rfl

/-- Three paths to the working directory. By one of them its file takes five bytes, by the name of
the link nothing is in use, and by the longest one no answer is given. -/
theorem answer_space_three_spellings :
    looped.WellFormed ∧ looped.resolve "." = .ok ["home"] ∧ looped.resolve "l" = .ok ["home"] ∧
      looped.resolve (dotted 4094) = .ok ["home"] ∧ looped.entry? ["home"] = some .directory ∧
      fileSystem.answer (.space ".") looped = (⟨.ok 5, none⟩, looped) ∧
      fileSystem.answer (.space "l") looped = (⟨.ok 0, none⟩, looped) ∧
      fileSystem.answer (.space (dotted 4094)) looped =
        (⟨.error (.refused (dotted 4094) .nameTooLong), none⟩, looped) := by
  have hlink : looped.resolve "l" = .ok ["home"] := by cbv
  have hpos : 0 < 4094 := by decide
  have hsize : 4094 + 1 < Path.maxBytes := by decide
  have hfile : looped.entry? ("a" :: looped.home) ≠ none := by
    cbv
    exact fun h => by cases h
  refine ⟨wellFormed_looped, resolve_looped, hlink, resolve_dotted hpos hsize entry?_looped,
    entry?_looped, ?_, ?_, answer_space_dotted hpos hsize entry?_looped hfile (by decide)⟩
  · rw [← lengthWithin_looped]
    exact answer_space_of_fits resolve_looped entry?_looped (not_namesLink_looped entryAt_looped)
      (fits_looped (by cbv) (by cbv) (by cbv))
  · have hentry : looped.entryAt "l" = .ok ["l", "home"] := by cbv
    have hresolves : looped.resolves "l" = true := resolves_iff.2 ⟨_, hlink⟩
    have hspace : looped.spaceFrom "l" ["l", "home"] = .ok 0 := by
      unfold spaceFrom
      cbv
    simp only [answer_space_def, checkSpace_eq, hresolves, space, hentry, bind, Except.bind,
      if_true, hspace]
    rfl

end FileChores.Volume
