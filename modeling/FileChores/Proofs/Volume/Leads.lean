import FileChores.Volume.Lookup

/-!
# Where names lead

Following names through directories and links, as a relation: one rule for each kind of name. Names
are walked to where they lead, and a path that may be written leads to what is opened.
-/

namespace FileChores.Volume

structure IsLookedUp (name : String) : Prop where
  ne_here : name ≠ "."
  ne_parent : name ≠ ".."
  size_le : name.utf8ByteSize ≤ Path.maxNameBytes

/-- From `here` on the names lead to a spot, through `links` links at most. -/
inductive Leads (v : Volume) : (links : Nat) → (here : Place) → List String → Spot → Prop
  | arrived (links : Nat) (here : Place) : Leads v links here [] (.present here)
  | stay {links : Nat} {here : Place} {rest : List String} {spot : Spot} :
      v.entry? here = some .directory → Leads v links here rest spot →
      Leads v links here ("." :: rest) spot
  | up {links : Nat} {here : Place} {rest : List String} {spot : Spot} :
      v.entry? here = some .directory → Leads v links here.tail rest spot →
      Leads v links here (".." :: rest) spot
  | vacant {links : Nat} {here : Place} {name : String} :
      v.entry? here = some .directory → IsLookedUp name → v.entry? (name :: here) = none →
      Leads v links here [name] (.vacant here name)
  | link {links : Nat} {here : Place} {name target : String} {rest : List String} {spot : Spot} :
      v.entry? here = some .directory → IsLookedUp name →
      v.entry? (name :: here) = some (.link target) →
      Leads v links (origin (Path.split target) here) ((Path.split target).steps ++ rest) spot →
      Leads v (links + 1) here (name :: rest) spot
  | down {links : Nat} {here : Place} {name : String} {entry : Entry} {rest : List String}
      {spot : Spot} :
      v.entry? here = some .directory → IsLookedUp name → v.entry? (name :: here) = some entry →
      (∀ target, entry ≠ .link target) → Leads v links (name :: here) rest spot →
      Leads v links here (name :: rest) spot

variable {v : Volume}

theorem isDirectory_iff {place : Place} :
    v.isDirectory place = true ↔ v.entry? place = some .directory := by
  unfold isDirectory
  split <;> simp_all

def GoesOn (v : Volume) : (links : Nat) → Stop → Spot → Prop
  | _, .arrived place, spot => spot = .present place
  | _, .missing directory name [], spot => spot = .vacant directory name
  | _, .missing _ _ (_ :: _), _ => False
  | 0, .link _ _ _, _ => False
  | links + 1, .link directory target rest, spot =>
      v.Leads links (origin (Path.split target) directory) ((Path.split target).steps ++ rest) spot

theorem leads_of_advance {links : Nat} {here : Place} {names : List String} {stop : Stop}
    {spot : Spot} (h : v.advance here names = .ok stop) (hstop : v.GoesOn links stop spot) :
    v.Leads links here names spot := by
  fun_induction advance v here names with
  | case1 here =>
      cases h
      cases hstop
      exact .arrived links here
  | case2 => cases h
  | case3 here rest hdirectory ih =>
      exact .stay (isDirectory_iff.1 (by simpa using hdirectory)) (ih h)
  | case4 here rest hdirectory _ ih =>
      exact .up (isDirectory_iff.1 (by simpa using hdirectory)) (ih h)
  | case5 => cases h
  | case6 here name rest hdirectory hhere hparent hsize hentry =>
      cases h
      cases rest with
      | nil =>
          cases hstop
          exact .vacant (isDirectory_iff.1 (by simpa using hdirectory))
            ⟨hhere, hparent, Nat.le_of_not_lt hsize⟩ hentry
      | cons => cases hstop
  | case7 here name rest hdirectory hhere hparent hsize target hentry =>
      cases h
      cases links with
      | zero => cases hstop
      | succ links =>
          exact .link (isDirectory_iff.1 (by simpa using hdirectory))
            ⟨hhere, hparent, Nat.le_of_not_lt hsize⟩ hentry hstop
  | case8 here name rest hdirectory hhere hparent hsize entry hlink hentry ih =>
      exact .down (isDirectory_iff.1 (by simpa using hdirectory))
        ⟨hhere, hparent, Nat.le_of_not_lt hsize⟩ hentry hlink (ih h)

theorem advance_lookedUp {here : Place} {name : String} (rest : List String)
    (hdirectory : v.entry? here = some .directory) (hname : IsLookedUp name) :
    v.advance here (name :: rest) =
      match v.entry? (name :: here) with
      | none => .ok (.missing here name rest)
      | some (.link target) => .ok (.link here target rest)
      | some _ => v.advance (name :: here) rest := by
  rw [advance, isDirectory_iff.2 hdirectory]
  exact (if_neg Bool.false_ne_true).trans <| (if_neg hname.ne_here).trans <|
    (if_neg hname.ne_parent).trans <| if_neg (Nat.not_lt.2 hname.size_le)

theorem Leads.exists_advance {links : Nat} {here : Place} {names : List String} {spot : Spot}
    (h : v.Leads links here names spot) :
    ∃ stop, v.advance here names = .ok stop ∧ v.GoesOn links stop spot := by
  induction h with
  | arrived links here => exact ⟨.arrived here, by rw [advance], rfl⟩
  | stay hdirectory _ ih =>
      obtain ⟨stop, hadvance, hstop⟩ := ih
      refine ⟨stop, ?_, hstop⟩
      simp [advance, isDirectory_iff.2 hdirectory, hadvance]
  | up hdirectory _ ih =>
      obtain ⟨stop, hadvance, hstop⟩ := ih
      refine ⟨stop, ?_, hstop⟩
      simp [advance, isDirectory_iff.2 hdirectory, hadvance]
  | @vacant links here name hdirectory hname hentry =>
      exact ⟨.missing here name [], by rw [advance_lookedUp _ hdirectory hname, hentry], rfl⟩
  | @link links here name target rest spot hdirectory hname hentry hleads =>
      exact ⟨.link here target rest, by rw [advance_lookedUp _ hdirectory hname, hentry], hleads⟩
  | down hdirectory hname hentry hlink _ ih =>
      obtain ⟨stop, hadvance, hstop⟩ := ih
      refine ⟨stop, ?_, hstop⟩
      rw [advance_lookedUp _ hdirectory hname, hentry]
      split <;> simp_all

/-- A walk is right when the walks behind its first link are. -/
theorem walk_iff_of_later {links : Nat} {here : Place} {names : List String} {spot : Spot}
    (hlater : ∀ fewer, links = fewer + 1 → ∀ here names,
      v.walk fewer here names = .ok spot ↔ v.Leads fewer here names spot) :
    v.walk links here names = .ok spot ↔ v.Leads links here names spot := by
  constructor
  · intro h
    unfold walk at h
    cases hadvance : v.advance here names with
    | error => rw [hadvance] at h; cases h
    | ok stop =>
        refine leads_of_advance hadvance ?_
        rw [hadvance] at h
        rcases stop with place | ⟨directory, name, _ | _⟩ | ⟨directory, target, rest⟩
        · cases h; rfl
        · cases h; rfl
        · cases h
        · cases links with
          | zero => cases h
          | succ fewer => exact (hlater fewer rfl _ _).1 h
  · intro h
    obtain ⟨stop, hadvance, hstop⟩ := h.exists_advance
    unfold walk
    rw [hadvance]
    rcases stop with place | ⟨directory, name, _ | _⟩ | ⟨directory, target, rest⟩
    · cases hstop; rfl
    · cases hstop; rfl
    · cases hstop
    · cases links with
      | zero => cases hstop
      | succ fewer => exact (hlater fewer rfl _ _).2 hstop

theorem walk_eq_ok_iff {links : Nat} {here : Place} {names : List String} {spot : Spot} :
    v.walk links here names = .ok spot ↔ v.Leads links here names spot := by
  induction links generalizing here names with
  | zero => exact walk_iff_of_later fun _ h => by cases h
  | succ links ih => exact walk_iff_of_later fun _ h _ _ => by cases h; exact ih

/-! ## Resolving, writing and removing -/

theorem resolve_eq_ok_iff {spelling : String} {place : Place} :
    v.resolve spelling = .ok place ↔ ∃ path, Path.ofString spelling = .ok path ∧
      v.Leads maxLinks (origin path v.home) path.steps (.present place) := by
  simp only [← walk_eq_ok_iff]
  unfold resolve
  cases Path.ofString spelling with
  | error => simp [bind, Except.bind]
  | ok path =>
      cases hwalk : v.walk maxLinks (origin path v.home) path.steps with
      | error => simp [bind, Except.bind, hwalk]
      | ok spot => cases spot <;> simp [bind, Except.bind, hwalk, Spot.place?]

theorem Leads.insert_stay {links : Nat} {here : Place} {front rest : List String} {name : String}
    {spot : Spot} (h : v.Leads links here (front ++ name :: rest) spot) :
    v.Leads links here (front ++ "." :: name :: rest) spot := by
  generalize hnames : front ++ name :: rest = names at h
  induction h generalizing front with
  | arrived => simp at hnames
  | stay hdirectory h ih =>
      cases front with
      | nil => cases hnames; exact .stay hdirectory (.stay hdirectory h)
      | cons => cases hnames; exact .stay hdirectory (ih rfl)
  | up hdirectory h ih =>
      cases front with
      | nil => cases hnames; exact .stay hdirectory (.up hdirectory h)
      | cons => cases hnames; exact .up hdirectory (ih rfl)
  | vacant hdirectory hname hentry =>
      cases front with
      | nil => cases hnames; exact .stay hdirectory (.vacant hdirectory hname hentry)
      | cons => simp at hnames
  | link hdirectory hname hentry h ih =>
      cases front with
      | nil => cases hnames; exact .stay hdirectory (.link hdirectory hname hentry h)
      | cons _ front =>
          cases hnames
          have hleads := ih (List.append_assoc _ front _)
          rw [List.append_assoc] at hleads
          exact .link hdirectory hname hentry hleads
  | down hdirectory hname hentry hlink h ih =>
      cases front with
      | nil => cases hnames; exact .stay hdirectory (.down hdirectory hname hentry hlink h)
      | cons => cases hnames; exact .down hdirectory hname hentry hlink (ih rfl)

theorem leads_of_followedBy {links : Nat} {path : Path} {here : Place} {rest : List String}
    {spot : Spot}
    (h : v.Leads links (origin (path.followedBy rest) here) (path.followedBy rest).steps spot) :
    v.Leads links (origin path here) (path.steps ++ rest) spot := by
  cases rest with
  | nil => rwa [List.append_nil]
  | cons name rest =>
      have h' : v.Leads links (origin path here) (path.names ++ name :: rest) spot := h
      rw [Path.steps]
      split
      · rw [List.append_assoc]
        exact h'.insert_stay
      · exact h'

def OpensAt (v : Volume) (links : Nat) (here : Place) (path : Path) (spot : Spot) : Prop :=
  v.Leads links (origin path here) path.steps spot ∧
    ∀ place, spot = .present place → v.isDirectory place = false

theorem opensAt_of_later {links : Nat} {here : Place} {path : Path} {spot : Spot}
    (hlater : ∀ fewer, links = fewer + 1 → ∀ here path,
      v.writableFrom fewer here path = .ok spot → v.OpensAt fewer here path spot)
    (h : v.writableFrom links here path = .ok spot) : v.OpensAt links here path spot := by
  unfold writableFrom at h
  split at h
  · cases hparent : v.parentOf links here path <;> rw [hparent] at h <;> cases h
  next hslash =>
  rw [OpensAt, Path.steps, if_neg hslash]
  cases hadvance : v.advance (origin path here) path.names with
  | error => rw [hadvance] at h; cases h
  | ok stop =>
      rw [hadvance] at h
      rcases stop with place | ⟨directory, name, _ | _⟩ | ⟨directory, target, rest⟩
      · change (if _ then _ else _) = _ at h
        split at h <;> cases h
        next hdirectory =>
        refine ⟨leads_of_advance hadvance rfl, ?_⟩
        rintro _ ⟨⟩
        simpa using hdirectory
      · cases h
        exact ⟨leads_of_advance hadvance rfl, fun _ h => by cases h⟩
      · cases h
      · cases links with
        | zero => cases h
        | succ fewer =>
            obtain ⟨hleads, hplace⟩ := hlater fewer rfl _ _ h
            exact ⟨leads_of_advance hadvance (leads_of_followedBy hleads), hplace⟩

theorem opensAt_of_writableFrom {links : Nat} {here : Place} {path : Path} {spot : Spot}
    (h : v.writableFrom links here path = .ok spot) : v.OpensAt links here path spot := by
  induction links generalizing here path with
  | zero => exact opensAt_of_later (fun _ h => by cases h) h
  | succ links ih => exact opensAt_of_later (fun _ h _ _ => by cases h; exact ih) h

theorem opensAt_of_writable {spelling : String} {spot : Spot} (h : v.writable spelling = .ok spot) :
    ∃ path, Path.ofString spelling = .ok path ∧ v.OpensAt maxLinks v.home path spot := by
  unfold writable at h
  cases hpath : Path.ofString spelling with
  | error => rw [hpath] at h; cases h
  | ok path =>
      rw [hpath] at h
      exact ⟨path, rfl, opensAt_of_writableFrom h⟩

theorem Leads.free {links : Nat} {here : Place} {names : List String} {spot : Spot}
    (h : v.Leads links here names spot) {directory : Place} {name : String}
    (hspot : spot = .vacant directory name) : v.entry? (name :: directory) = none := by
  induction h with
  | arrived => cases hspot
  | stay _ _ ih | up _ _ ih | link _ _ _ _ ih | down _ _ _ _ _ ih => exact ih hspot
  | vacant _ _ hentry => cases hspot; exact hentry

theorem free_of_writable {spelling : String} {directory : Place} {name : String}
    (h : v.writable spelling = .ok (.vacant directory name)) :
    v.entry? (name :: directory) = none := by
  obtain ⟨path, -, hleads, -⟩ := opensAt_of_writable h
  exact hleads.free rfl

inductive Final (v : Volume) (directory : Place) : String → Spot → Prop
  | stay : Final v directory "." (.present directory)
  | up : Final v directory ".." (.present directory.tail)
  | vacant {name : String} : IsLookedUp name → v.entry? (name :: directory) = none →
      Final v directory name (.vacant directory name)
  | link {name target : String} {spot : Spot} : IsLookedUp name →
      v.entry? (name :: directory) = some (.link target) → Final v directory name spot
  | entry {name : String} {entry : Entry} : IsLookedUp name →
      v.entry? (name :: directory) = some entry → (∀ target, entry ≠ .link target) →
      Final v directory name (.present (name :: directory))

/-- Names lead through the directory to which all but the last of them lead. -/
theorem Leads.exists_final {links : Nat} {here : Place} {front : List String} {last : String}
    {spot : Spot} (h : v.Leads links here (front ++ [last]) spot) :
    ∃ directory, v.Leads links here front (.present directory) ∧
      v.entry? directory = some .directory ∧ v.Final directory last spot := by
  generalize hnames : front ++ [last] = names at h
  induction h generalizing front with
  | arrived => simp at hnames
  | @stay links here rest spot hdirectory h ih =>
      cases front with
      | nil => cases hnames; cases h; exact ⟨here, .arrived links here, hdirectory, .stay⟩
      | cons =>
          cases hnames
          obtain ⟨directory, hleads, hfinal⟩ := ih rfl
          exact ⟨directory, .stay hdirectory hleads, hfinal⟩
  | @up links here rest spot hdirectory h ih =>
      cases front with
      | nil => cases hnames; cases h; exact ⟨here, .arrived links here, hdirectory, .up⟩
      | cons =>
          cases hnames
          obtain ⟨directory, hleads, hfinal⟩ := ih rfl
          exact ⟨directory, .up hdirectory hleads, hfinal⟩
  | @vacant links here name hdirectory hname hentry =>
      cases front with
      | nil =>
          cases hnames
          exact ⟨here, .arrived links here, hdirectory, .vacant hname hentry⟩
      | cons => simp at hnames
  | @link links here name target rest spot hdirectory hname hentry h ih =>
      cases front with
      | nil =>
          cases hnames
          exact ⟨here, .arrived (links + 1) here, hdirectory, .link hname hentry⟩
      | cons _ front =>
          cases hnames
          obtain ⟨directory, hleads, hfinal⟩ := ih (List.append_assoc _ front _)
          exact ⟨directory, .link hdirectory hname hentry hleads, hfinal⟩
  | @down links here name entry rest spot hdirectory hname hentry hlink h ih =>
      cases front with
      | nil =>
          cases hnames
          cases h
          exact ⟨here, .arrived links here, hdirectory, .entry hname hentry hlink⟩
      | cons =>
          cases hnames
          obtain ⟨directory, hleads, hfinal⟩ := ih rfl
          exact ⟨directory, .down hdirectory hname hentry hlink hleads, hfinal⟩

end FileChores.Volume
