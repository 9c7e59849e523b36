import FileChores.Proofs.Volume.Tree

/-!
# What a path denotes

A path that ends in a name denotes a place for an entry, whether there is one or not: all but the
last name lead to a directory, and the last name is not followed. A path that can be written denotes
a place at which no directory stands.
-/

namespace FileChores.Volume

variable {v : Volume}

theorem bind_eq_ok {α β : Type} {x : Except Refusal α} {f : α → Except Refusal β} {b : β} :
    (x >>= f) = .ok b ↔ ∃ a, x = .ok a ∧ f a = .ok b := by
  cases x <;> simp [bind, Except.bind]

theorem bind_eq_error {α β : Type} {x : Except Refusal α} {f : α → Except Refusal β}
    {cause : Refusal} :
    (x >>= f) = .error cause ↔ x = .error cause ∨ ∃ a, x = .ok a ∧ f a = .error cause := by
  cases x <;> simp [bind, Except.bind]

theorem Spot.place?_eq_ok_iff {spot : Spot} {place : Place} :
    spot.place? = .ok place ↔ spot = .present place := by
  cases spot <;> simp [Spot.place?]

theorem Last.ofName_of_ne {name : String} (hhere : name ≠ ".") (hparent : name ≠ "..") :
    Last.ofName name = .name name := by
  unfold Last.ofName
  split
  · exact absurd rfl hhere
  · exact absurd rfl hparent
  · rfl

theorem Last.eq_of_ofName {last name : String} (h : Last.ofName last = .name name) :
    last = name ∧ name ≠ "." ∧ name ≠ ".." := by
  unfold Last.ofName at h
  split at h
  · cases h
  · cases h
  · next hhere hparent =>
      cases h
      exact ⟨rfl, hhere, hparent⟩

/-! ## Where the names in front of the last one lead -/

theorem parentOf_eq_ok_iff {links : Nat} {here directory : Place} {path : Path} :
    v.parentOf links here path = .ok directory ↔
      v.Leads links (origin path here) path.names.dropLast (.present directory) ∧
        v.entry? directory = some .directory := by
  unfold parentOf
  simp only [bind_eq_ok, walk_eq_ok_iff, Spot.place?_eq_ok_iff]
  constructor
  · rintro ⟨_, hleads, place, rfl, hplace⟩
    split at hplace
    · next hdirectory =>
        cases hplace
        exact ⟨hleads, isDirectory_iff.1 hdirectory⟩
    · cases hplace
  · rintro ⟨hleads, hdirectory⟩
    exact ⟨_, hleads, directory, rfl, if_pos (isDirectory_iff.2 hdirectory)⟩

theorem slot_of_leads {spelling : String} {path : Path} {front : List String} {last : String}
    {directory : Place} (hpath : Path.ofString spelling = .ok path)
    (hnames : path.names = front ++ [last])
    (hleads : v.Leads maxLinks (origin path v.home) front (.present directory))
    (hdirectory : v.entry? directory = some .directory) :
    v.slot spelling = .ok ⟨directory, .ofName last, path.slash⟩ := by
  have hparent : v.parentOf maxLinks v.home path = .ok directory := by
    rw [parentOf_eq_ok_iff, hnames, List.dropLast_concat]
    exact ⟨hleads, hdirectory⟩
  unfold slot
  simp only [hpath, bind, Except.bind, hnames, List.getLast?_concat, hparent, pure, Except.pure]

/-- A path that leads to an entry ends in a slot. What it leads to is under the last name, unless
that is a link. -/
theorem exists_slot_of_resolve {spelling : String} {place : Place}
    (h : v.resolve spelling = .ok place) :
    ∃ slot, v.slot spelling = .ok slot ∧
      ∀ name, slot.last = .name name → slot.slash = false →
        IsLookedUp name ∧ ∃ entry, v.entry? (name :: slot.directory) = some entry ∧
          (place = name :: slot.directory ∨ ∃ target, entry = .link target) := by
  obtain ⟨path, hpath, hleads⟩ := resolve_eq_ok_iff.1 h
  rcases List.eq_nil_or_concat path.names with hnames | ⟨front, last, hnames⟩
  · refine ⟨⟨[], .root, path.slash⟩, ?_, fun name hname => by cases hname⟩
    unfold slot
    simp only [hpath, bind, Except.bind, hnames, List.getLast?_nil]
  rw [List.concat_eq_append] at hnames
  unfold Path.steps at hleads
  split at hleads
  · next hslash =>
      obtain ⟨_, hleads, -⟩ := hleads.exists_final
      rw [hnames] at hleads
      obtain ⟨directory, hfront, hdirectory, -⟩ := hleads.exists_final
      refine ⟨_, slot_of_leads hpath hnames hfront hdirectory, fun name _ hnone => ?_⟩
      cases hslash.symm.trans hnone
  · rw [hnames] at hleads
    obtain ⟨directory, hfront, hdirectory, hfinal⟩ := hleads.exists_final
    refine ⟨_, slot_of_leads hpath hnames hfront hdirectory, fun name hname _ => ?_⟩
    obtain ⟨rfl, hhere, hparent⟩ := Last.eq_of_ofName hname
    cases hfinal with
    | stay => exact absurd rfl hhere
    | up => exact absurd rfl hparent
    | link hlookedUp hentry => exact ⟨hlookedUp, _, hentry, .inr ⟨_, rfl⟩⟩
    | entry hlookedUp hentry => exact ⟨hlookedUp, _, hentry, .inl rfl⟩

theorem Final.lookedUp (hv : v.WellFormed) {directory : Place} {name : String} {spot : Spot}
    (h : v.Final directory name spot) (hdirectory : v.entry? directory = some .directory)
    (hspot : ∀ place, spot = .present place → v.entry? place ≠ some .directory) :
    IsLookedUp name ∧ v.entry? (name :: directory) ≠ some .directory := by
  cases h with
  | stay => exact absurd hdirectory (hspot _ rfl)
  | up => exact absurd (hv.tail hdirectory) (hspot _ rfl)
  | vacant hname hentry => exact ⟨hname, by rw [hentry]; exact fun h => by cases h⟩
  | link hname hentry => exact ⟨hname, by rw [hentry]; exact fun h => by cases h⟩
  | entry hname => exact ⟨hname, hspot _ rfl⟩

theorem Final.exists_entry (hv : v.WellFormed) {directory place : Place} {name : String}
    {content : ByteArray} (h : v.Final directory name (.present place))
    (hdirectory : v.entry? directory = some .directory)
    (hfile : v.entry? place = some (.file content)) :
    ∃ entry, v.entry? (name :: directory) = some entry ∧ entry ≠ .directory := by
  cases h with
  | stay => cases hdirectory.symm.trans hfile
  | up => cases (hv.tail hdirectory).symm.trans hfile
  | link _ hentry => exact ⟨_, hentry, fun h => by cases h⟩
  | entry => exact ⟨_, hfile, fun h => by cases h⟩

theorem Final.eq_present {directory : Place} {name : String} {entry : Entry} {spot : Spot}
    (h : v.Final directory name spot) (hname : IsLookedUp name)
    (hentry : v.entry? (name :: directory) = some entry) (hlink : ∀ target, entry ≠ .link target) :
    spot = .present (name :: directory) := by
  cases h with
  | stay => exact absurd rfl hname.ne_here
  | up => exact absurd rfl hname.ne_parent
  | vacant _ hfree => cases hfree.symm.trans hentry
  | link _ hlink' => exact absurd (Option.some.inj (hentry.symm.trans hlink')) (hlink _)
  | entry => rfl

theorem exists_slot_of_leads (hv : v.WellFormed) {spelling : String} {path : Path} {spot : Spot}
    (hpath : Path.ofString spelling = .ok path)
    (hleads : v.Leads maxLinks (origin path v.home) path.steps spot)
    (hspot : ∀ place, spot = .present place → v.entry? place ≠ some .directory) :
    ∃ directory name, v.slot spelling = .ok ⟨directory, .name name, false⟩ ∧
      v.entry? directory = some .directory ∧ IsLookedUp name ∧
      v.entry? (name :: directory) ≠ some .directory ∧ v.Final directory name spot := by
  rcases List.eq_nil_or_concat path.steps with hsteps | ⟨front, last, hsteps⟩
  · rw [hsteps] at hleads
    cases hleads
    exact absurd (entry?_origin path hv.home) (hspot _ rfl)
  rw [List.concat_eq_append] at hsteps
  rw [hsteps] at hleads
  obtain ⟨directory, hfront, hdirectory, hfinal⟩ := hleads.exists_final
  obtain ⟨hname, hentry⟩ := hfinal.lookedUp hv hdirectory hspot
  unfold Path.steps at hsteps
  split at hsteps
  · cases (List.append_inj' hsteps rfl).2
    exact absurd rfl hname.ne_here
  · next hslash =>
    have hslot := slot_of_leads hpath hsteps hfront hdirectory
    rw [Last.ofName_of_ne hname.ne_here hname.ne_parent, Bool.eq_false_iff.2 hslash] at hslot
    exact ⟨directory, last, hslot, hdirectory, hname, hentry, hfinal⟩

theorem exists_slot_of_file (hv : v.WellFormed) {spelling : String} {place : Place}
    {content : ByteArray} (hplace : v.resolve spelling = .ok place)
    (hfile : v.entry? place = some (.file content)) :
    ∃ directory name, v.slot spelling = .ok ⟨directory, .name name, false⟩ ∧
      v.entry? directory = some .directory ∧ IsLookedUp name ∧
      v.entry? (name :: directory) ≠ some .directory ∧
      v.Final directory name (.present place) := by
  obtain ⟨path, hpath, hleads⟩ := resolve_eq_ok_iff.1 hplace
  refine exists_slot_of_leads hv hpath hleads fun other hother hdirectory => ?_
  cases hother
  cases hfile.symm.trans hdirectory

theorem exists_slot_of_writable (hv : v.WellFormed) {spelling : String} {spot : Spot}
    (h : v.writable spelling = .ok spot) :
    ∃ directory name, v.slot spelling = .ok ⟨directory, .name name, false⟩ ∧
      v.entry? directory = some .directory ∧ IsLookedUp name ∧
      v.entry? (name :: directory) ≠ some .directory ∧ v.Final directory name spot := by
  obtain ⟨path, hpath, hleads, hspot⟩ := opensAt_of_writable h
  refine exists_slot_of_leads hv hpath hleads fun place hplace hdirectory => ?_
  have hother := hspot place hplace
  rw [isDirectory_iff.2 hdirectory] at hother
  cases hother

theorem entryAt_of_slot {spelling name : String} {directory : Place} {entry : Entry}
    (hslot : v.slot spelling = .ok ⟨directory, .name name, false⟩) (hname : IsLookedUp name)
    (hentry : v.entry? (name :: directory) = some entry) :
    v.entryAt spelling = .ok (name :: directory) := by
  have hchild : v.child directory name = .ok (some entry) := by
    rw [child, if_neg (Nat.not_lt.2 hname.size_le), hentry]
  unfold entryAt
  simp only [hslot, bind, Except.bind, hchild]

theorem entry?_ne_none_of_resolve (hv : v.WellFormed) {spelling : String} {place : Place}
    (h : v.resolve spelling = .ok place) : v.entry? place ≠ none := by
  obtain ⟨path, -, hleads⟩ := resolve_eq_ok_iff.1 h
  cases hleads.lands hv (holds_of_directory (entry?_origin path hv.home)) with
  | present hplace =>
      obtain ⟨entry, hentry, -⟩ := hplace
      rw [hentry]
      exact Option.some_ne_none entry

theorem entryAt_of_resolve {spelling : String} {place : Place}
    (hplace : v.resolve spelling = .ok place)
    (hlink : ∀ found target, v.entryAt spelling = .ok found →
      v.entry? found ≠ some (.link target)) : v.entryAt spelling = .ok place := by
  obtain ⟨⟨directory, last, slash⟩, hslot, hlast⟩ := exists_slot_of_resolve hplace
  by_cases hnamed : ∃ name, last = .name name ∧ slash = false
  · obtain ⟨name, rfl, rfl⟩ := hnamed
    obtain ⟨hname, entry, hentry, hplace'⟩ := hlast name rfl rfl
    have hfound := entryAt_of_slot hslot hname hentry
    rcases hplace' with rfl | ⟨target, rfl⟩
    · exact hfound
    · exact absurd hentry (hlink _ target hfound)
  · unfold entryAt
    rw [hslot, ← hplace]
    cases last with
    | name name =>
        cases slash with
        | false => exact absurd ⟨name, rfl, rfl⟩ hnamed
        | true => rfl
    | here | parent | root => rfl

theorem exists_leads_of_slot {spelling name : String} {directory : Place} {slash : Bool}
    (h : v.slot spelling = .ok ⟨directory, .name name, slash⟩) :
    ∃ path front, Path.ofString spelling = .ok path ∧ path.names = front ++ [name] ∧
      path.slash = slash ∧ name ≠ "." ∧ name ≠ ".." ∧
      v.Leads maxLinks (origin path v.home) front (.present directory) ∧
      v.entry? directory = some .directory := by
  unfold slot at h
  obtain ⟨path, hpath, h⟩ := bind_eq_ok.1 h
  split at h
  · cases h
  · next last hlast =>
      obtain ⟨parent, hparent, h⟩ := bind_eq_ok.1 h
      simp only [pure, Except.pure, Except.ok.injEq, Slot.mk.injEq] at h
      obtain ⟨rfl, hname, rfl⟩ := h
      obtain ⟨rfl, hhere, hparent'⟩ := Last.eq_of_ofName hname
      obtain ⟨hleads, hdirectory⟩ := parentOf_eq_ok_iff.1 hparent
      exact ⟨path, path.names.dropLast, hpath, (List.dropLast_append_getLast? _ hlast).symm, rfl,
        hhere, hparent', hleads, hdirectory⟩

end FileChores.Volume
