import FileChores.Proofs.Volume.Deleting

/-!
# What is blamed for a missing entry

A copy or a move that finds "No such file or directory" reports it under its source. The source is
there: one that is missing is reported in words of its own before anything is tried. It is the
target that leads nowhere.
-/

namespace FileChores.Volume

variable {v : Volume} {source target : String}

/-! ## A target that leads somewhere -/

theorem Leads.remove_stay {links : Nat} {here : Place} {front rest : List String} {name : String}
    {spot : Spot} (h : v.Leads links here (front ++ "." :: name :: rest) spot) :
    v.Leads links here (front ++ name :: rest) spot := by
  generalize hnames : front ++ "." :: name :: rest = names at h
  induction h generalizing front with
  | arrived => simp at hnames
  | stay hdirectory h ih =>
      cases front with
      | nil => cases hnames; exact h
      | cons => cases hnames; exact .stay hdirectory (ih rfl)
  | up hdirectory h ih =>
      cases front with
      | nil => simp at hnames
      | cons => cases hnames; exact .up hdirectory (ih rfl)
  | vacant => cases front <;> simp at hnames
  | link hdirectory hname hentry h ih =>
      cases front with
      | nil => cases hnames; exact absurd rfl hname.ne_here
      | cons _ front =>
          cases hnames
          have hleads := ih (List.append_assoc _ front _)
          rw [List.append_assoc] at hleads
          exact .link hdirectory hname hentry hleads
  | down hdirectory hname hentry hlink h ih =>
      cases front with
      | nil => cases hnames; exact absurd rfl hname.ne_here
      | cons => cases hnames; exact .down hdirectory hname hentry hlink (ih rfl)

theorem Leads.followedBy {links : Nat} {path : Path} {here : Place} {rest : List String}
    {spot : Spot} (h : v.Leads links (origin path here) (path.steps ++ rest) spot) :
    v.Leads links (origin (path.followedBy rest) here) (path.followedBy rest).steps spot := by
  cases rest with
  | nil => rwa [List.append_nil] at h
  | cons name rest =>
      show v.Leads links (origin path here) (path.names ++ name :: rest) spot
      rw [Path.steps] at h
      split at h
      · rw [List.append_assoc] at h
        exact h.remove_stay
      · exact h

theorem exists_parentOf {links : Nat} {here place : Place} {path : Path}
    (h : v.Leads links (origin path here) path.names (.present place))
    (hplace : v.entry? place = some .directory) :
    ∃ directory, v.parentOf links here path = .ok directory := by
  simp only [parentOf_eq_ok_iff]
  rcases List.eq_nil_or_concat path.names with hnames | ⟨front, last, hnames⟩
  · rw [hnames] at h ⊢
    exact ⟨place, h, hplace⟩
  · rw [List.concat_eq_append] at hnames
    rw [hnames] at h ⊢
    obtain ⟨directory, hfront, hdirectory, -⟩ := h.exists_final
    rw [List.dropLast_concat]
    exact ⟨directory, hfront, hdirectory⟩

/-- A path that leads to an entry is opened for writing there, unless it leads to a directory. -/
theorem writableFrom_of_leads {links : Nat} {here place : Place} {path : Path}
    (h : v.Leads links (origin path here) path.steps (.present place)) :
    v.writableFrom links here path =
      if v.isDirectory place then .error .isDirectory else .ok (.present place) := by
  induction links using Nat.strong_induction_on generalizing here path with
  | h links ih =>
  unfold writableFrom
  split
  · next hslash =>
    rw [Path.steps, if_pos hslash] at h
    obtain ⟨directory, hleads, hdirectory, hfinal⟩ := h.exists_final
    generalize hlast : "." = last at hfinal
    obtain rfl : place = directory := by
      cases hfinal with
      | stay => rfl
      | up => exact absurd hlast (by decide)
      | link hname | entry hname => exact absurd hlast.symm hname.ne_here
    obtain ⟨parent, hparent⟩ := exists_parentOf hleads hdirectory
    rw [hparent, if_pos (isDirectory_iff.2 hdirectory)]
    rfl
  · next hslash =>
    rw [Path.steps, if_neg hslash] at h
    obtain ⟨stop, hadvance, hstop⟩ := h.exists_advance
    rw [hadvance]
    rcases stop with found | ⟨directory, name, _ | _⟩ | ⟨directory, content, rest⟩
    · cases hstop
      rfl
    · cases hstop
    · cases hstop
    · cases links with
      | zero => cases hstop
      | succ fewer => exact ih fewer (Nat.lt_succ_self fewer) (Leads.followedBy hstop)

theorem not_resolve_of_writable (h : v.writable target = .error .noEntry) (place : Place) :
    v.resolve target ≠ .ok place := by
  intro hplace
  obtain ⟨path, hpath, hleads⟩ := resolve_eq_ok_iff.1 hplace
  rw [writable, hpath] at h
  have hopened := h.symm.trans (writableFrom_of_leads hleads)
  split at hopened <;> cases hopened

theorem not_resolve_of_slot (h : v.slot target = .error .noEntry) (place : Place) :
    v.resolve target ≠ .ok place := by
  intro hplace
  obtain ⟨slot, hslot, -⟩ := exists_slot_of_resolve hplace
  cases h.symm.trans hslot

/-! ## A source that is not missing -/

theorem Names.entry?_ne_none {spelling : String} {own place : Place} (h : v.Names spelling own)
    (hplace : v.resolve spelling = .ok place) : v.entry? own ≠ none := by
  rcases own with _ | ⟨name, directory⟩
  · exact absurd h id
  obtain ⟨-, -, -, -, hname, -⟩ := h.exists_leads
  cases h.final_of_resolve hplace with
  | stay => exact absurd rfl hname.ne_here
  | up => exact absurd rfl hname.ne_parent
  | link _ hentry | entry _ hentry => simp [hentry]

theorem child_ne_noEntry (directory : Place) (name : String) :
    v.child directory name ≠ .error .noEntry := by
  unfold child
  split <;> exact nofun

theorem mayReplace_ne_noEntry (moved : Entry) (new : Place) :
    v.mayReplace moved new ≠ .error .noEntry := by
  unfold mayReplace
  split
  · exact nofun
  · split <;> exact nofun
  all_goals exact nofun

theorem renameEntry_ne_noEntry (moved : Entry) (old new : Place) :
    v.renameEntry moved old new ≠ .error .noEntry := by
  unfold renameEntry
  split
  · exact nofun
  split
  · exact nofun
  split
  · exact nofun
  intro h
  rcases bind_eq_error.1 h with hreplace | ⟨_, -, hgraft⟩
  · exact mayReplace_ne_noEntry moved new hreplace
  · cases hgraft

theorem renameSlot_ne_noEntry {old : Slot}
    (hold : ∀ name, old.last = .name name → name.utf8ByteSize ≤ Path.maxNameBytes →
      v.entry? (name :: old.directory) ≠ none) (new : Slot) :
    v.renameSlot old new ≠ .error .noEntry := by
  unfold renameSlot
  split
  · exact nofun
  split
  · next name name' hname hname' =>
    intro h
    rcases bind_eq_error.1 h with hchild | ⟨found, hchild, h⟩
    · exact child_ne_noEntry _ _ hchild
    obtain ⟨hsize, hentry⟩ := child_eq_ok_iff.1 hchild
    cases found with
    | none => exact hold name hname hsize hentry
    | some moved =>
        rcases bind_eq_error.1 h with hchild' | ⟨_, -, h⟩
        · exact child_ne_noEntry _ _ hchild'
        dsimp only at h
        split at h <;> cases h
  · exact nofun

/-- A rename of what exists misses nothing but the directory of its target. -/
theorem slot_of_rename {place : Place} (hplace : v.resolve source = .ok place)
    (h : v.rename source target = .error .noEntry) : v.slot target = .error .noEntry := by
  obtain ⟨old, hold, -⟩ := exists_slot_of_resolve hplace
  rcases bind_eq_error.1 h with h | ⟨plan, -, h⟩
  swap
  · exact absurd h (renameEntry_ne_noEntry _ _ _)
  rcases bind_eq_error.1 h with hmissing | ⟨old', hold', h⟩
  · cases hold.symm.trans hmissing
  obtain rfl : old = old' := Except.ok.inj (hold.symm.trans hold')
  rcases bind_eq_error.1 h with hnew | ⟨new, -, h⟩
  · exact hnew
  · refine absurd h (renameSlot_ne_noEntry (fun name hname hsize => ?_) new)
    obtain ⟨directory, last, slash⟩ := old
    cases hname
    exact Names.entry?_ne_none ⟨hsize, slash, hold⟩ hplace

/-- A copy from a file misses nothing but the directory of its target. -/
theorem writable_of_copy {place : Place} (hplace : v.resolve source = .ok place)
    (h : v.copy source target = .error .noEntry) : v.writable target = .error .noEntry := by
  unfold copy at h
  obtain hmissing | ⟨_, -, h⟩ := bind_eq_error.1 h
  · cases hplace.symm.trans hmissing
  split at h
  · cases h
  · obtain hwritable | ⟨_, -, h⟩ := bind_eq_error.1 h
    · exact hwritable
    · cases h

/-! ## Requests with two paths -/

section

variable {place : Place} {path : String} (hplace : v.resolve source = .ok place)

include hplace

theorem not_resolve_of_copyFile
    (h : (v.copyFile source target).1 = .error (.refused path .noEntry)) (found : Place) :
    v.resolve target ≠ .ok found := by
  have hcopy : v.copy source target = .error .noEntry := by
    rw [copyFile_eq, if_pos (resolves_iff.2 ⟨place, hplace⟩)] at h
    cases hcopy : v.copy source target with
    | ok => rw [hcopy] at h; cases h
    | error => rw [hcopy] at h; cases h; rfl
  exact not_resolve_of_writable (writable_of_copy hplace hcopy) found

/-- A move misses the directory of its target when it renames, or when it copies instead. -/
theorem not_resolve_of_relocate (hv : v.WellFormed)
    (h : (v.relocate source target).1 = .error (.refused path .noEntry)) (found : Place) :
    v.resolve target ≠ .ok found := by
  rw [relocate_eq, if_pos (resolves_iff.2 ⟨place, hplace⟩)] at h
  split at h
  · cases h
  next cause hrename =>
  split at h
  · split at h
    · next cause' hcopy =>
      cases h
      exact not_resolve_of_writable (writable_of_copy hplace hcopy) found
    · next hcopy =>
      obtain ⟨left, hleft⟩ := unlink_of_copy hv hcopy
      rw [hleft] at h
      cases h
  · cases h
    exact not_resolve_of_slot (slot_of_rename hplace hrename) found

end

/-- When one of two paths is missing, a request names the other one. The path that it names leads
to an entry, the path of its target leads nowhere, and nothing has changed. -/
theorem answer_noEntry_names_source (hv : v.WellFormed) {request : Request}
    (hrequest : request ∈
      [Request.move source target, .copy source target, .rename source target])
    {path : String} (h : (fileSystem.answer request v).1.result = .error (.refused path .noEntry)) :
    path = source ∧ (∃ place, v.resolve source = .ok place) ∧
      (∀ place, v.resolve target ≠ .ok place) ∧ (fileSystem.answer request v).2 = v := by
  have hmeets : v.Meets request := by
    by_contra hmeets
    exact request.missing_ne_refused (Except.error.inj ((answer_missing hmeets).1.symm.trans h))
  obtain ⟨⟨cause, hcause⟩, hleft⟩ := answer_refused hv hmeets h
  simp only [List.mem_cons, List.not_mem_nil, or_false] at hrequest
  rcases hrequest with rfl | rfl | rfl
  all_goals
    cases hcause
    obtain ⟨place, hplace⟩ := hmeets
  · exact ⟨rfl, ⟨place, hplace⟩, not_resolve_of_relocate hplace hv h, hleft⟩
  · exact ⟨rfl, ⟨place, hplace⟩, not_resolve_of_copyFile hplace h, hleft⟩
  · exact ⟨rfl, ⟨place, hplace⟩, not_resolve_of_relocate hplace hv h, hleft⟩

theorem ofString_gone : Path.ofString "gone/b" = .ok ⟨false, ["gone", "b"], false⟩ := by decide

/-- A link that leads to its directory is to be put into a directory that is missing. -/
theorem answer_noEntry_names_source_link :
    looped.WellFormed ∧
      (fileSystem.answer (.rename "l" "gone/b") looped).1.result =
        .error (.refused "l" .noEntry) ∧
      (∃ place, looped.resolve "l" = .ok place) ∧
      (∀ place, looped.resolve "gone/b" ≠ .ok place) ∧
      (fileSystem.answer (.rename "l" "gone/b") looped).2 = looped := by
  have hresolves : looped.resolves "l" = true := by cbv
  have hfile : looped.isFile "l" = false := by cbv
  have hold : looped.slot "l" = .ok ⟨["home"], .name "l", false⟩ := by cbv
  have hnew : looped.slot "gone/b" = .error .noEntry := by
    simp only [slot, ofString_gone, bind, Except.bind]
    cbv
  have hrename : looped.rename "l" "gone/b" = .error .noEntry := by
    simp only [rename, planRename, hold, hnew, bind, Except.bind]
  have hrelocate : looped.relocate "l" "gone/b" =
      (.error (.refused "l" .noEntry), none, looped) := by
    rw [relocate_eq, if_pos hresolves, hrename]
    simp only [hfile, Bool.false_eq_true, if_false]
  have hanswer : (fileSystem.answer (.rename "l" "gone/b") looped).1.result =
      .error (.refused "l" .noEntry) := congrArg Prod.fst hrelocate
  have hrequest : Request.rename "l" "gone/b" ∈
      [Request.move "l" "gone/b", .copy "l" "gone/b", .rename "l" "gone/b"] := by decide
  exact ⟨wellFormed_looped, hanswer,
    (answer_noEntry_names_source wellFormed_looped hrequest hanswer).2⟩

/-- A file is said to be missing that is there and can be read. -/
theorem copy_blames_existing_source :
    single.WellFormed ∧ single.resolve "a" = .ok ["a", "home"] ∧ single.read "a" = .ok digits ∧
      (∀ place, single.resolve "gone/b" ≠ .ok place) ∧
      (fileSystem.answer (.copy "a" "gone/b") single).1.result =
        .error (.refused "a" .noEntry) ∧
      (FileError.refused "a" .noEntry).message = "a: No such file or directory (os error 2)" := by
  have hresolves : single.resolves "a" = true := resolves_iff.2 ⟨_, resolve_single⟩
  have hwritable : single.writable "gone/b" = .error .noEntry := by
    simp only [writable, ofString_gone, bind, Except.bind]
    cbv
  refine ⟨wellFormed_single, resolve_single, read_of_resolve resolve_single entry?_single,
    not_resolve_of_writable hwritable, ?_, rfl⟩
  have hcopy : single.copy "a" "gone/b" = .error .noEntry := by
    simp only [copy, resolve_single, fileAt?, entry?_single, hwritable, bind, Except.bind]
  change (single.copyFile "a" "gone/b").1 = _
  rw [copyFile_eq, if_pos hresolves, hcopy]

end FileChores.Volume
