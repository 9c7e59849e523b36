import FileChores.Proofs.Volume.Relocating

/-!
# What a delete removes

A request to delete removes the entry that its path names, a link itself and not what it leads to,
and nothing else. What it cannot remove it refuses: a directory that is not empty, and a link to a
directory, which is taken for the directory when the way to remove it is chosen.
-/

namespace FileChores.Volume

variable {v v' : Volume} {spelling : String}

/-! ## Fewer entries -/

theorem Leads.unique {links : Nat} {here : Place} {names : List String} {spot spot' : Spot}
    (h : v.Leads links here names spot) (h' : v.Leads links here names spot') : spot = spot' :=
  Except.ok.inj ((walk_eq_ok_iff.2 h).symm.trans (walk_eq_ok_iff.2 h'))

def Extends (v v' : Volume) : Prop :=
  ∀ place entry, v'.entry? place = some entry → v.entry? place = some entry

theorem extends_remove {place : Place} (h : place ≠ []) : v.Extends (v.remove place) := by
  intro other entry hother
  rw [entry?_remove h] at hother
  split at hother
  · cases hother
  · exact hother

theorem Leads.of_extends (hsub : v.Extends v') {links : Nat} {here : Place} {names : List String}
    {spot : Spot} (h : v'.Leads links here names spot) {place : Place}
    (hspot : spot = .present place) : v.Leads links here names spot := by
  induction h with
  | arrived links here => exact .arrived links here
  | stay hdirectory _ ih => exact .stay (hsub _ _ hdirectory) (ih hspot)
  | up hdirectory _ ih => exact .up (hsub _ _ hdirectory) (ih hspot)
  | vacant => cases hspot
  | link hdirectory hname hentry _ ih =>
      exact .link (hsub _ _ hdirectory) hname (hsub _ _ hentry) (ih hspot)
  | down hdirectory hname hentry hlink _ ih =>
      exact .down (hsub _ _ hdirectory) hname (hsub _ _ hentry) hlink (ih hspot)

theorem resolve_of_extends (hsub : v.Extends v') (hhome : v'.home = v.home) {place : Place}
    (h : v'.resolve spelling = .ok place) : v.resolve spelling = .ok place := by
  obtain ⟨path, hpath, hleads⟩ := resolve_eq_ok_iff.1 h
  rw [hhome] at hleads
  exact resolve_eq_ok_iff.2 ⟨path, hpath, hleads.of_extends hsub rfl⟩

/-! ## The entry that a path names -/

theorem names_of_slot {name : String} {directory : Place} {slash : Bool}
    (hslot : v.slot spelling = .ok ⟨directory, .name name, slash⟩)
    (hsize : name.utf8ByteSize ≤ Path.maxNameBytes) : v.Names spelling (name :: directory) :=
  ⟨hsize, slash, hslot⟩

theorem Names.exists_leads {name : String} {directory : Place}
    (h : v.Names spelling (name :: directory)) :
    ∃ path front, Path.ofString spelling = .ok path ∧ path.names = front ++ [name] ∧
      IsLookedUp name ∧ v.Leads maxLinks (origin path v.home) front (.present directory) ∧
      v.entry? directory = some .directory := by
  obtain ⟨hsize, slash, hslot⟩ := h
  obtain ⟨path, front, hpath, hnames, -, hhere, hparent, hleads, hdirectory⟩ :=
    exists_leads_of_slot hslot
  exact ⟨path, front, hpath, hnames, ⟨hhere, hparent, hsize⟩, hleads, hdirectory⟩

theorem Leads.names_of_steps {path : Path} {links : Nat} {here place : Place}
    (h : v.Leads links here path.steps (.present place)) :
    v.Leads links here path.names (.present place) := by
  unfold Path.steps at h
  split at h
  · obtain ⟨directory, hleads, -, hfinal⟩ := h.exists_final
    generalize hlast : "." = last at hfinal
    cases hfinal with
    | stay => exact hleads
    | up => exact absurd hlast (by decide)
    | link hname => exact absurd hlast.symm hname.ne_here
    | entry hname => exact absurd hlast.symm hname.ne_here
  · exact h

/-- A path that leads somewhere leads there through the entry that it names. -/
theorem Names.final_of_resolve {name : String} {directory place : Place}
    (h : v.Names spelling (name :: directory)) (hplace : v.resolve spelling = .ok place) :
    v.Final directory name (.present place) := by
  obtain ⟨path, front, hpath, hnames, -, hfront, -⟩ := h.exists_leads
  obtain ⟨path', hpath', hleads⟩ := resolve_eq_ok_iff.1 hplace
  obtain rfl : path = path' := Except.ok.inj (hpath.symm.trans hpath')
  have hleads := hleads.names_of_steps
  rw [hnames] at hleads
  obtain ⟨directory', hfront', -, hfinal⟩ := hleads.exists_final
  cases hfront.unique hfront'
  exact hfinal

/-! ## What is removed, and when -/

/-- A path that leads to no directory names something that can be unlinked. -/
theorem exists_removable_of_resolve (hv : v.WellFormed) {place : Place}
    (hplace : v.resolve spelling = .ok place) (hdirectory : v.entry? place ≠ some .directory) :
    ∃ directory name, v.Removable spelling directory name := by
  obtain ⟨path, hpath, hleads⟩ := resolve_eq_ok_iff.1 hplace
  obtain ⟨directory, name, hslot, hparent, hname, hown, hfinal⟩ :=
    exists_slot_of_leads hv hpath hleads fun other hother => by
      cases hother
      exact hdirectory
  obtain ⟨path, front, hpath, hnames, hslash, -, -, hfront, -⟩ := exists_leads_of_slot hslot
  refine ⟨directory, name, ⟨path, front, hpath, hnames, hslash, hfront⟩, hparent, hname, ?_⟩
  have hentry : v.entry? (name :: directory) ≠ none := by
    cases hfinal with
    | stay => exact absurd hparent hdirectory
    | up => exact absurd (hv.tail hparent) hdirectory
    | link _ hlink => simp [hlink]
    | entry _ hentry => simp [hentry]
  obtain ⟨entry, hentry⟩ := Option.ne_none_iff_exists'.1 hentry
  exact ⟨entry, hentry, fun heq => hown (heq ▸ hentry)⟩

theorem Removable.names {name : String} {directory : Place}
    (h : v.Removable spelling directory name) : v.Names spelling (name :: directory) :=
  names_of_slot h.slot h.lookedUp.size_le

theorem vacated_eq_ok_iff {own : Place} : v.vacated spelling = .ok own ↔
    v.Names spelling own ∧ v.entry? own = some .directory ∧ v.names own = [] := by
  unfold vacated
  simp only [bind_eq_ok]
  constructor
  · rintro ⟨⟨directory, last, slash⟩, hslot, h⟩
    cases last with
    | name name =>
        obtain ⟨found, hchild, h⟩ := bind_eq_ok.1 h
        obtain ⟨hsize, hentry⟩ := child_eq_ok_iff.1 hchild
        dsimp only at h
        split at h
        · cases h
        · split at h
          · next hnames =>
            cases h
            exact ⟨names_of_slot hslot hsize, hentry, hnames⟩
          · cases h
        · cases h
    | here | parent | root => cases h
  · rintro ⟨hown, hentry, hnames⟩
    rcases own with _ | ⟨name, directory⟩
    · exact absurd hown id
    obtain ⟨hsize, slash, hslot⟩ := hown
    refine ⟨_, hslot, bind_eq_ok.2 ⟨some .directory, child_eq_ok_iff.2 ⟨hsize, hentry⟩, ?_⟩⟩
    exact if_pos hnames

theorem removeDirectory_eq_ok_iff : v.removeDirectory spelling = .ok v' ↔
    ∃ own, v.Names spelling own ∧ v.entry? own = some .directory ∧ v.names own = [] ∧
      v' = v.remove own := by
  unfold removeDirectory
  simp only [bind_eq_ok, vacated_eq_ok_iff, pure, Except.pure, Except.ok.injEq, and_assoc,
    @eq_comm _ v']

/-- A path names what a request to delete may remove: something through which it leads to no
directory, or an empty directory itself. -/
structure Deletable (v : Volume) (spelling : String) (own : Place) : Prop where
  names : v.Names spelling own
  leads : ∃ place, v.resolve spelling = .ok place ∧
    (v.entry? place ≠ some .directory ∨ v.entry? own = some .directory ∧ v.names own = [])

theorem Deletable.entry (hv : v.WellFormed) {own : Place} (h : v.Deletable spelling own) :
    v.entry? own ≠ none := by
  obtain ⟨place, hplace, hdirectory | ⟨hown, -⟩⟩ := h.leads
  · obtain ⟨directory, name, hremovable⟩ := exists_removable_of_resolve hv hplace hdirectory
    obtain ⟨entry, hentry, -⟩ := hremovable.entry
    rw [h.names.eq_of_slot hremovable.slot, hentry]
    exact Option.some_ne_none entry
  · rw [hown]
    exact Option.some_ne_none _

theorem delete_eq_ok_iff (hv : v.WellFormed) : v.delete spelling = (.ok (), v') ↔
    ∃ own, v.Deletable spelling own ∧ v' = v.remove own := by
  rw [delete_eq]
  cases hplace : v.resolve spelling with
  | error cause =>
      refine iff_of_false (fun h => by cases h) ?_
      rintro ⟨own, ⟨-, place, hresolve, -⟩, -⟩
      cases hplace.symm.trans hresolve
  | ok place =>
      dsimp only
      by_cases hdirectory : v.entry? place = some .directory
      · rw [if_pos (isDirectory_iff.2 hdirectory), Host.settle_eq_ok_iff, removeDirectory_eq_ok_iff]
        constructor
        · rintro ⟨own, hown, hentry, hnames, rfl⟩
          exact ⟨own, ⟨hown, place, hplace, .inr ⟨hentry, hnames⟩⟩, rfl⟩
        · rintro ⟨own, ⟨hown, place', hplace', h⟩, rfl⟩
          obtain rfl : place = place' := Except.ok.inj (hplace.symm.trans hplace')
          obtain ⟨hentry, hnames⟩ := h.resolve_left (not_not.2 hdirectory)
          exact ⟨own, hown, hentry, hnames, rfl⟩
      · rw [if_neg (mt isDirectory_iff.1 hdirectory)]
        obtain ⟨directory, name, hremovable⟩ := exists_removable_of_resolve hv hplace hdirectory
        rw [hremovable.unlink]
        constructor
        · rintro ⟨⟩
          exact ⟨_, ⟨hremovable.names, place, hplace, .inl hdirectory⟩, rfl⟩
        · rintro ⟨own, hown, rfl⟩
          rw [hown.names.eq_of_slot hremovable.slot]
          rfl

theorem Names.not_resolve_remove {own : Place} (h : v.Names spelling own) (place : Place) :
    (v.remove own).resolve spelling ≠ .ok place := by
  intro hplace
  rcases own with _ | ⟨name, directory⟩
  · exact absurd h id
  have hne : name :: directory ≠ [] := List.cons_ne_nil _ _
  have hgone : entry? (v.remove (name :: directory)) (name :: directory) = none := by
    rw [entry?_remove hne, if_pos rfl]
  obtain ⟨path, front, hpath, hnames, hname, hfront, -⟩ := h.exists_leads
  obtain ⟨path', hpath', hleads⟩ := resolve_eq_ok_iff.1 hplace
  obtain rfl : path = path' := Except.ok.inj (hpath.symm.trans hpath')
  have hleads := hleads.names_of_steps
  rw [hnames] at hleads
  obtain ⟨directory', hfront', -, hfinal⟩ := hleads.exists_final
  -- The names in front lead to the same directory as before.
  cases hfront.unique (hfront'.of_extends (extends_remove hne) rfl)
  cases hfinal with
  | stay => exact hname.ne_here rfl
  | up => exact hname.ne_parent rfl
  | link _ hentry => cases hgone.symm.trans hentry
  | entry _ hentry => cases hgone.symm.trans hentry

theorem delete_of_not_resolve (h : ∀ place, v.resolve spelling ≠ .ok place) :
    v.delete spelling = (.error (.notFound spelling), v) := by
  rw [delete_eq]
  cases hplace : v.resolve spelling with
  | error => rfl
  | ok place => exact absurd hplace (h place)

theorem answer_delete_eq_iff {result : Except FileError Unit} :
    fileSystem.answer (.delete spelling) v = (⟨result, none⟩, v') ↔
      v.delete spelling = (result, v') := by
  simp only [fileSystem, Host.fileSystem, delete, Prod.ext_iff, Answer.mk.injEq, and_true]

/-- A request to delete succeeds just when its path leads somewhere, and either to no directory, or
names an empty directory itself. Then the entry that the path names is gone, which is the link where
it names one, everything else is as it was, and the same request finds nothing any more. -/
theorem answer_delete (hv : v.WellFormed) (path : String) :
    ((∃ v', fileSystem.answer (.delete path) v = (⟨.ok (), none⟩, v')) ↔
      ∃ place, v.resolve path = .ok place ∧
        (v.entry? place ≠ some .directory ∨
          ∃ own, v.Names path own ∧ v.entry? own = some .directory ∧ v.names own = [])) ∧
    ∀ v', fileSystem.answer (.delete path) v = (⟨.ok (), none⟩, v') →
      (∃ own, v.Names path own ∧ v.entry? own ≠ none ∧ v'.home = v.home ∧
        ∀ place, v'.entry? place = if own = place then none else v.entry? place) ∧
      fileSystem.answer (.delete path) v' = (⟨.error (.notFound path), none⟩, v') := by
  simp only [answer_delete_eq_iff, delete_eq_ok_iff hv]
  constructor
  · constructor
    · rintro ⟨v', own, ⟨hown, place, hplace, h⟩, -⟩
      exact ⟨place, hplace, h.imp_right fun hempty => ⟨own, hown, hempty⟩⟩
    · rintro ⟨place, hplace, hdirectory | ⟨own, hown, hempty⟩⟩
      · obtain ⟨directory, name, hremovable⟩ := exists_removable_of_resolve hv hplace hdirectory
        exact ⟨_, _, ⟨hremovable.names, place, hplace, .inl hdirectory⟩, rfl⟩
      · exact ⟨_, own, ⟨hown, place, hplace, .inr hempty⟩, rfl⟩
  · rintro v' ⟨own, hown, rfl⟩
    refine ⟨⟨own, hown.names, hown.entry hv, rfl, entry?_remove hown.names.ne_nil⟩, ?_⟩
    exact delete_of_not_resolve hown.names.not_resolve_remove

def linked : Volume :=
  single.put ["l", "home"] (.link "a")

theorem wellFormed_linked : linked.WellFormed := by
  refine wellFormed_single.put rfl (by decide) ?_ _
  cbv
  exact fun h => by cases h

/-- The link is deleted and the file is left. -/
theorem answer_delete_link :
    linked.WellFormed ∧ ∃ v', fileSystem.answer (.delete "l") linked = (⟨.ok (), none⟩, v') ∧
      v'.entry? ["l", "home"] = none ∧ v'.entry? ["a", "home"] = some (.file digits) ∧
      fileSystem.answer (.delete "l") v' = (⟨.error (.notFound "l"), none⟩, v') := by
  have hresolve : linked.resolve "l" = .ok ["a", "home"] := by cbv
  have hfile : linked.entry? ["a", "home"] = some (.file digits) := by cbv
  have hslot : linked.slot "l" = .ok ⟨["home"], .name "l", false⟩ := by cbv
  obtain ⟨hok, hafter⟩ := answer_delete wellFormed_linked "l"
  obtain ⟨v', hv'⟩ := hok.2 ⟨_, hresolve, .inl (by rw [hfile]; exact fun h => by cases h)⟩
  obtain ⟨⟨own, hown, -, -, hentries⟩, hagain⟩ := hafter v' hv'
  obtain rfl := hown.eq_of_slot hslot
  refine ⟨wellFormed_linked, v', hv', ?_, ?_, hagain⟩
  · rw [hentries, if_pos rfl]
  · rw [hentries, if_neg (by decide), hfile]

end FileChores.Volume
