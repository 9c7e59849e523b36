import FileChores.Proofs.Volume.Grafting
import FileChores.Proofs.Volume.Refusing
import FileChores.Proofs.Volume.Slots

/-!
# What a move leaves

An entry is moved by renaming it. Only between two devices its bytes are copied and the entry is
removed instead, and as nothing but the null device is on a device of its own, the bytes are lost
there. Otherwise the entry is moved as it is, with everything below it, and nothing else changes
but what it replaces.
-/

namespace FileChores.Volume

variable {v v' : Volume} {source target : String}

/-- A path names an entry, or the place for one. A link under its last name is not followed. -/
def Names (v : Volume) (spelling : String) : Place → Prop
  | [] => False
  | name :: directory => name.utf8ByteSize ≤ Path.maxNameBytes ∧
      ∃ slash, v.slot spelling = .ok ⟨directory, .name name, slash⟩

/-! ## Renaming -/

structure Renames (v : Volume) (source target : String) (moved : Entry) (old new : Place) :
    Prop where
  source : v.Names source old
  target : v.Names target new
  entry : v.entry? old = some moved
  device : onDeviceTree old.tail = onDeviceTree new.tail

theorem child_eq_ok_iff {directory : Place} {name : String} {found : Option Entry} :
    v.child directory name = .ok found ↔
      name.utf8ByteSize ≤ Path.maxNameBytes ∧ v.entry? (name :: directory) = found := by
  unfold child
  split
  · next h => simp [Nat.not_le.2 h]
  · next h => simp [Nat.le_of_not_lt h]

theorem renames_of_planRename {plan : RenamePlan}
    (h : v.planRename source target = .ok plan) :
    v.Renames source target plan.moved plan.source plan.target := by
  obtain ⟨⟨directory, last, slash⟩, hold, h⟩ := bind_eq_ok.1 h
  obtain ⟨⟨directory', last', slash'⟩, hnew, h⟩ := bind_eq_ok.1 h
  unfold renameSlot at h
  split at h
  · cases h
  next hdevice =>
  split at h
  · next name name' hname hname' =>
    cases hname
    cases hname'
    obtain ⟨found, hchild, h⟩ := bind_eq_ok.1 h
    obtain ⟨hsize, hentry⟩ := child_eq_ok_iff.1 hchild
    cases found with
    | none => cases h
    | some moved =>
        obtain ⟨_, hchild', h⟩ := bind_eq_ok.1 h
        obtain ⟨hsize', -⟩ := child_eq_ok_iff.1 hchild'
        dsimp only at h
        split at h
        · cases h
        · cases h
          exact ⟨⟨hsize, slash, hold⟩, ⟨hsize', slash', hnew⟩, hentry, not_not.1 hdevice⟩
  · cases h

theorem exists_renames (h : v.rename source target = .ok v') :
    ∃ moved old new, v.Renames source target moved old new ∧
      v.renameEntry moved old new = .ok v' := by
  obtain ⟨plan, hplan, h⟩ := bind_eq_ok.1 h
  exact ⟨plan.moved, plan.source, plan.target, renames_of_planRename hplan, h⟩

theorem renameEntry_eq_ok {moved : Entry} {old new : Place}
    (h : v.renameEntry moved old new = .ok v') :
    old = new ∧ v' = v ∨
      old ≠ new ∧ ¬ old <:+ new.tail ∧ ¬ new <:+ old.tail ∧ v.mayReplace moved new = .ok () ∧
        v' = v.graft old new := by
  unfold renameEntry at h
  simp only [Place.isSome_below?_iff] at h
  split at h
  · cases h
  split at h
  · cases h
  next hinside houtside =>
  split at h
  · next heq =>
    cases h
    exact .inl ⟨heq, rfl⟩
  · next hne =>
    obtain ⟨⟨⟩, hreplace, h⟩ := bind_eq_ok.1 h
    cases h
    exact .inr ⟨hne, hinside, houtside, hreplace, rfl⟩

theorem mayReplace_eq_ok_iff {moved : Entry} {new : Place} :
    v.mayReplace moved new = .ok () ↔
      ∀ entry, v.entry? new = some entry → (entry = .directory ↔ moved = .directory) ∧
        (entry = .directory → v.names new = []) := by
  unfold mayReplace
  split <;> simp_all

theorem WellFormed.empty_below (hv : v.WellFormed) {new : Place}
    (h : v.entry? new = some .directory → v.names new = []) :
    ∀ inner, inner ≠ [] → v.entry? (inner ++ new) = none := by
  intro inner hinner
  by_contra hentry
  have hnew : v.entry? new = some .directory :=
    hv.entry?_of_isSuffix hentry (List.suffix_append inner new) (by simpa using hinner)
  have hwithin : v.Within new (inner ++ new) :=
    (hv.within_iff (by rw [hnew]; exact Option.some_ne_none _)).2
      ⟨List.suffix_append inner new, hentry⟩
  rcases hwithin.cases_entry with hself | ⟨-, name, hname, -⟩
  · exact hinner (List.append_left_eq_self.1 hself)
  · have hmem := mem_names_iff.2 hname
    rw [h hnew] at hmem
    cases hmem

theorem Names.ne_nil {spelling : String} {place : Place} (h : v.Names spelling place) :
    place ≠ [] := by
  rintro rfl
  exact h

theorem not_suffix_of_tail {inner outer : Place} (hinner : inner ≠ outer)
    (htail : ¬ outer <:+ inner.tail) : ¬ outer <:+ inner := by
  intro h
  cases inner with
  | nil => exact hinner (List.suffix_nil.1 h).symm
  | cons name parent =>
      rcases List.suffix_cons_iff.1 h with heq | h
      · exact hinner heq.symm
      · exact htail h

theorem Renames.relocated (hv : v.WellFormed) {moved : Entry} {old new : Place}
    (h : v.Renames source target moved old new) (hne : old ≠ new) (hinside : ¬ old <:+ new.tail)
    (houtside : ¬ new <:+ old.tail) (hreplace : v.mayReplace moved new = .ok ()) :
    v.Relocated (v.graft old new) old new := by
  have hkind := mayReplace_eq_ok_iff.1 hreplace
  have hempty := hv.empty_below fun hnew => (hkind _ hnew).2 rfl
  have hgraftable : v.Graftable old new :=
    ⟨not_suffix_of_tail hne.symm hinside, not_suffix_of_tail hne houtside, hempty⟩
  refine hgraftable.relocated fun entry hentry => ?_
  rw [(hkind entry hentry).1, h.entry, Option.some.injEq]

theorem relocated_of_rename (hv : v.WellFormed) (h : v.rename source target = .ok v') :
    ∃ moved old new, v.Renames source target moved old new ∧
      (old = new ∧ v' = v ∨ old ≠ new ∧ v' = v.graft old new ∧ v.Relocated v' old new) := by
  obtain ⟨moved, old, new, hrenames, hmoved⟩ := exists_renames h
  refine ⟨moved, old, new, hrenames, ?_⟩
  rcases renameEntry_eq_ok hmoved with hsame | ⟨hne, hinside, houtside, hreplace, rfl⟩
  · exact .inl hsame
  · exact .inr ⟨hne, rfl, hrenames.relocated hv hne hinside houtside hreplace⟩

/-! ## Copying across devices -/

section

variable {directory directory' : Place} {name name' : String} {moved : Entry}
  (hold : v.slot source = .ok ⟨directory, .name name, false⟩)
  (hnew : v.slot target = .ok ⟨directory', .name name', false⟩)
  (hname : IsLookedUp name) (hname' : IsLookedUp name')
  (hmoved : v.entry? (name :: directory) = some moved)
  (hdevice : onDeviceTree directory = onDeviceTree directory')

include hold hnew hname hname' hmoved hdevice

theorem rename_of_slots :
    v.rename source target =
      v.renameEntry moved (name :: directory) (name' :: directory') := by
  have hchild : v.child directory name = .ok (some moved) :=
    child_eq_ok_iff.2 ⟨hname.size_le, hmoved⟩
  have hchild' : v.child directory' name' = .ok (v.entry? (name' :: directory')) :=
    child_eq_ok_iff.2 ⟨hname'.size_le, rfl⟩
  simp only [rename, planRename, hold, hnew, renameSlot, bind, Except.bind, hdevice, ne_eq,
    not_true_eq_false, if_false, hchild, hchild', Bool.or_false, Bool.false_and,
    Bool.false_eq_true]

/-- Between places on one device a file or a link is always renamed. -/
theorem rename_of_no_directory (hv : v.WellFormed)
    (hparent : v.entry? directory = some .directory)
    (hparent' : v.entry? directory' = some .directory)
    (hsource : v.entry? (name :: directory) ≠ some .directory)
    (htarget : v.entry? (name' :: directory') ≠ some .directory) :
    ∃ v', v.rename source target = .ok v' := by
  have houtside {place outer : Place} (hplace : v.entry? place = some .directory)
      (houter : v.entry? outer ≠ some .directory) : ¬ outer <:+ place :=
    fun hsuffix => houter (hv.directory_of_isSuffix hplace hsuffix)
  have hreplace : v.mayReplace moved (name' :: directory') = .ok () := by
    refine mayReplace_eq_ok_iff.2 fun entry hentry => ?_
    have hmoved' : moved ≠ .directory := by
      rintro rfl
      exact hsource hmoved
    have hentry' : entry ≠ .directory := by
      rintro rfl
      exact htarget hentry
    exact ⟨iff_of_false hentry' hmoved', fun h => absurd h hentry'⟩
  rw [rename_of_slots hold hnew hname hname' hmoved hdevice, renameEntry]
  simp only [Place.isSome_below?_iff, List.tail_cons]
  rw [if_neg (houtside hparent' hsource), if_neg (houtside hparent htarget)]
  split
  · exact ⟨v, rfl⟩
  · rw [hreplace]
    exact ⟨_, rfl⟩

end

theorem Names.eq_of_slot {spelling name : String} {place directory : Place} {slash : Bool}
    (h : v.Names spelling place) (hslot : v.slot spelling = .ok ⟨directory, .name name, slash⟩) :
    place = name :: directory := by
  cases place with
  | nil => exact absurd h id
  | cons name' directory' =>
      obtain ⟨-, slash', hslot'⟩ := h
      cases hslot.symm.trans hslot'
      rfl

theorem entry?_remove {place : Place} (h : place ≠ []) (other : Place) :
    entry? (v.remove place) other = if place = other then none else v.entry? other := by
  cases other with
  | nil => rw [if_neg h]; rfl
  | cons name parent => simp [remove, entry?, Std.ExtTreeMap.getElem?_erase]

def MeetsNullOnly (v : Volume) (spelling : String) : Prop :=
  ∀ place, v.Names spelling place → onDeviceTree place.tail = true → place = ["null", "dev"]

/-- A file that cannot be renamed but copied goes to the null device. -/
theorem spot_of_copies (hv : v.WellFormed) (hnull : v.entry? ["null", "dev"] = some .nullDevice)
    (hsource : v.MeetsNullOnly source) (htarget : v.MeetsNullOnly target) {cause : Refusal}
    (hrename : v.rename source target = .error cause) {place : Place} {content : ByteArray}
    {spot : Spot} (hcopies : v.Copies source target place content spot) :
    spot = .present ["null", "dev"] ∧ v.Names target ["null", "dev"] ∧
      ∃ directory name, v.Removable source directory name ∧
        name :: directory ≠ ["null", "dev"] := by
  obtain ⟨directory, name, hslot, hparent, hname, hold, hfinal⟩ :=
    exists_slot_of_file hv hcopies.resolve hcopies.entry
  obtain ⟨directory', name', hslot', hparent', hname', hnew, hfinal'⟩ :=
    exists_slot_of_writable hv hcopies.writable
  obtain ⟨path, front, hpath, hnames, hslash, -, -, hleads, -⟩ := exists_leads_of_slot hslot
  have hremovable : v.Removable source directory name :=
    ⟨⟨path, front, hpath, hnames, hslash, hleads⟩, hparent, hname,
      hfinal.exists_entry hv hparent hcopies.entry⟩
  obtain ⟨moved, hmoved, -⟩ := hremovable.entry
  have hdevice : onDeviceTree directory ≠ onDeviceTree directory' := by
    intro hsame
    obtain ⟨_, hrenamed⟩ := rename_of_no_directory hslot hslot' hname hname' hmoved hsame hv
      hparent hparent' hold hnew
    cases hrename.symm.trans hrenamed
  have hsourceOff : onDeviceTree directory = false := by
    by_contra hon
    rw [Bool.not_eq_false] at hon
    have hdev := hsource (name :: directory) ⟨hname.size_le, false, hslot⟩ hon
    rw [← hdev] at hnull
    cases hfinal.eq_present hname hnull fun _ h => by cases h
    cases hnull.symm.trans hcopies.entry
  have htargetOn : onDeviceTree directory' = true := by
    by_contra hoff
    exact hdevice (hsourceOff.trans (Bool.eq_false_iff.2 hoff).symm)
  have hdev := htarget (name' :: directory') ⟨hname'.size_le, false, hslot'⟩ htargetOn
  rw [← hdev] at hnull ⊢
  have hspot : spot = .present (name' :: directory') :=
    hfinal'.eq_present hname' hnull fun _ h => by cases h
  refine ⟨hspot, ⟨hname'.size_le, false, hslot'⟩, directory, name, hremovable, fun hsame => ?_⟩
  exact hdevice (congrArg onDeviceTree (List.cons.inj hsame).2)

theorem relocate_eq_ok {detour : Option Refusal}
    (h : v.relocate source target = (.ok (), detour, v')) :
    v.rename source target = .ok v' ∨
      ∃ cause n copied, v.rename source target = .error cause ∧
        v.copy source target = .ok (n, copied) ∧ copied.unlink source = .ok v' := by
  obtain ⟨-, hrename⟩ | ⟨cause, n, copied, -, hrename, hcopy, hunlink⟩ := Host.relocate_eq_ok h
  · exact .inl hrename
  · exact .inr ⟨cause, n, copied, hrename, copy_of_host hcopy, hunlink⟩

theorem answer_move_eq_iff {result : Except FileError Unit} {detour : Option Refusal} :
    fileSystem.answer (.move source target) v = (⟨result, detour⟩, v') ↔
      v.relocate source target = (result, detour, v') := by
  simp only [fileSystem, Host.fileSystem, relocate, Prod.ext_iff, Answer.mk.injEq, and_assoc]

end FileChores.Volume
