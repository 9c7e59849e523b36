import FileChores.Proofs.Volume.Deleting
import FileChores.Proofs.Volume.Spelling

/-!
# The entries of a directory

A directory lists its entries in ascending order. An entry is named by the path of the directory, a
slash, and its name. A path that leads to the directory is not cut off when an entry goes that is
not passed through.
-/

namespace FileChores

namespace Path

theorem pieces_ne_nil (spelling : List Char) : pieces spelling ≠ [] := by
  fun_cases pieces spelling <;> simp

theorem pieces_append (a b : List Char) : pieces (a ++ '/' :: b) = pieces a ++ pieces b := by
  fun_induction pieces a with
  | case1 => rfl
  | case2 rest ih => rw [List.cons_append, pieces, ih]; rfl
  | case3 c rest hc hpieces ih => exact absurd hpieces (pieces_ne_nil rest)
  | case4 c rest hc piece others hpieces ih =>
      rw [List.cons_append, pieces, ih, hpieces]
      · rfl
      · exact hc

theorem pieces_of_not_mem {name : List Char} (h : '/' ∉ name) : pieces name = [name] := by
  induction name with
  | nil => rfl
  | cons c rest ih =>
      rw [List.mem_cons, not_or] at h
      rw [pieces, ih h.2]
      exact fun hc => h.1 hc.symm

theorem ofString_eq_ok_iff {spelling : String} {path : Path} :
    ofString spelling = .ok path ↔ '\x00' ∉ spelling.toList ∧ spelling ≠ "" ∧
      spelling.utf8ByteSize < maxBytes ∧ split spelling = path := by
  unfold ofString
  split
  · next h => exact iff_of_false nofun fun h' => h'.1 (List.contains_iff_mem.1 h)
  next hnul =>
  split
  · next h => exact iff_of_false nofun fun h' => h'.2.1 (String.isEmpty_iff.1 h)
  next hempty =>
  split
  · next h => exact iff_of_false nofun fun h' => Nat.not_lt.2 h h'.2.2.1
  next hsize =>
  rw [Except.ok.injEq]
  exact ⟨fun h => ⟨mt List.contains_iff_mem.2 hnul, mt String.isEmpty_iff.2 hempty,
    Nat.lt_of_not_le hsize, h⟩, fun h => h.2.2.2⟩

def entry (directory name : String) : String :=
  directory ++ "/" ++ name

theorem toList_entry (directory name : String) :
    (entry directory name).toList = directory.toList ++ '/' :: name.toList := by
  rw [entry, String.toList_append, String.toList_append, List.append_assoc]
  rfl

theorem split_entry {directory name : String} (hdirectory : directory ≠ "") (hname : name ≠ "")
    (hslash : '/' ∉ name.toList) : split (entry directory name) =
      ⟨(split directory).absolute, (split directory).names ++ [name], false⟩ := by
  have hfirst : directory.toList ≠ [] := mt String.toList_eq_nil_iff.1 hdirectory
  have hlast : name.toList ≠ [] := mt String.toList_eq_nil_iff.1 hname
  unfold split
  rw [toList_entry, pieces_append, pieces_of_not_mem hslash, Path.mk.injEq]
  refine ⟨?_, ?_, ?_⟩
  · rw [List.head?_append_of_ne_nil _ hfirst]
  · rw [List.filter_append, List.map_append]
    simp [hlast]
  · rw [List.getLast?_append_of_ne_nil _ (List.cons_ne_nil _ _),
      List.getLast?_cons_of_ne_nil hlast, beq_eq_false_iff_ne]
    exact fun h => hslash (List.mem_of_getLast? h)

theorem ofString_entry {directory name : String} {path : Path}
    (hpath : ofString directory = .ok path) (hname : name ≠ "") (hslash : '/' ∉ name.toList)
    (hnul : '\x00' ∉ name.toList) (hsize : (entry directory name).utf8ByteSize < maxBytes) :
    ofString (entry directory name) = .ok ⟨path.absolute, path.names ++ [name], false⟩ := by
  obtain ⟨hnul', hempty, -, rfl⟩ := ofString_eq_ok_iff.1 hpath
  refine ofString_eq_ok_iff.2 ⟨?_, ?_, hsize, split_entry hempty hname hslash⟩
  · simp [toList_entry, hnul, hnul']
  · rw [Ne, ← String.toList_eq_nil_iff, toList_entry]
    exact List.append_ne_nil_of_right_ne_nil _ (List.cons_ne_nil _ _)

end Path

namespace Volume

variable {v : Volume}

/-! ## The names in order -/

theorem pairwise_names (place : Place) :
    (v.names place).Pairwise (compare · · = .lt) := by
  have hkeys := Std.ExtTreeMap.ordered_keys_toList (t := v.entries)
  refine List.Pairwise.filterMap _ ?_ hkeys
  rintro ⟨_ | ⟨name, parent⟩, entry⟩ ⟨_ | ⟨name', parent'⟩, entry'⟩ hlt first hfirst second hsecond
  all_goals
    simp only [Option.ite_none_right_eq_some, Option.some.injEq, reduceCtorEq] at hfirst hsecond
  obtain ⟨rfl, rfl⟩ := hfirst
  obtain ⟨rfl, rfl⟩ := hsecond
  simpa using hlt

theorem names_remove {place : Place} {name : String} :
    (v.remove (name :: place)).names place = (v.names place).erase name := by
  have hne : name :: place ≠ [] := List.cons_ne_nil _ _
  refine List.Perm.eq_of_pairwise (fun a b _ _ hab hba => ?_) (pairwise_names place)
    ((pairwise_names place).sublist List.erase_sublist) ?_
  · exact absurd hba (Std.OrientedCmp.not_lt_of_lt hab)
  refine (List.perm_ext_iff_of_nodup (nodup_names place) ((nodup_names place).erase name)).2 ?_
  intro other
  rw [(nodup_names place).mem_erase_iff, mem_names_iff, mem_names_iff, entry?_remove hne]
  simp [eq_comm]

/-! ## Walks taken apart and put together -/

namespace Leads

variable {links : Nat} {here place : Place} {names : List String} {spot : Spot}

theorem mono (h : v.Leads links here names spot) {links' : Nat} (hle : links ≤ links') :
    v.Leads links' here names spot := by
  induction h generalizing links' with
  | arrived links here => exact .arrived links' here
  | stay hdirectory _ ih => exact .stay hdirectory (ih hle)
  | up hdirectory _ ih => exact .up hdirectory (ih hle)
  | vacant hdirectory hname hentry => exact .vacant hdirectory hname hentry
  | link hdirectory hname hentry _ ih =>
      obtain ⟨more, rfl⟩ := Nat.exists_eq_add_of_le' hle
      exact .link hdirectory hname hentry (ih (Nat.le_add_left _ _))
  | down hdirectory hname hentry hlink _ ih => exact .down hdirectory hname hentry hlink (ih hle)

theorem unique_of_links {links' : Nat} {spot' : Spot} (h : v.Leads links here names spot)
    (h' : v.Leads links' here names spot') : spot = spot' :=
  (h.mono (Nat.le_max_left links links')).unique (h'.mono (Nat.le_max_right links links'))

theorem directory_here (h : v.Leads links here names (.present place))
    (hplace : v.entry? place = some .directory) : v.entry? here = some .directory := by
  cases h with
  | arrived => exact hplace
  | stay hdirectory | up hdirectory | link hdirectory | down hdirectory => exact hdirectory

/-- The first names of those that lead to an entry lead to an entry, from which the others go on. -/
theorem exists_split {front rest : List String}
    (h : v.Leads links here (front ++ rest) (.present place)) :
    ∃ between left, v.Leads links here front (.present between) ∧
      v.Leads left between rest (.present place) := by
  generalize hnames : front ++ rest = names at h
  generalize hspot : Spot.present place = spot at h
  induction h generalizing front with
  | arrived links here =>
      obtain ⟨rfl, rfl⟩ := List.append_eq_nil_iff.1 hnames
      cases hspot
      exact ⟨place, links, .arrived links place, .arrived links place⟩
  | @stay links here _ _ hdirectory h ih =>
      cases front with
      | nil => subst hnames hspot; exact ⟨here, links, .arrived links here, .stay hdirectory h⟩
      | cons =>
          cases hnames
          obtain ⟨between, left, hfront, hrest⟩ := ih rfl hspot
          exact ⟨between, left, .stay hdirectory hfront, hrest⟩
  | @up links here _ _ hdirectory h ih =>
      cases front with
      | nil => subst hnames hspot; exact ⟨here, links, .arrived links here, .up hdirectory h⟩
      | cons =>
          cases hnames
          obtain ⟨between, left, hfront, hrest⟩ := ih rfl hspot
          exact ⟨between, left, .up hdirectory hfront, hrest⟩
  | vacant => cases hspot
  | @link links here _ _ _ _ hdirectory hname hentry h ih =>
      cases front with
      | nil =>
          subst hnames hspot
          exact ⟨here, links + 1, .arrived _ here, .link hdirectory hname hentry h⟩
      | cons _ front =>
          cases hnames
          obtain ⟨between, left, hfront, hrest⟩ := ih (List.append_assoc _ front _) hspot
          exact ⟨between, left, .link hdirectory hname hentry hfront, hrest⟩
  | @down links here _ _ _ _ hdirectory hname hentry hlink h ih =>
      cases front with
      | nil =>
          subst hnames hspot
          exact ⟨here, links, .arrived links here, .down hdirectory hname hentry hlink h⟩
      | cons =>
          cases hnames
          obtain ⟨between, left, hfront, hrest⟩ := ih rfl hspot
          exact ⟨between, left, .down hdirectory hname hentry hlink hfront, hrest⟩

theorem exists_append (h : v.Leads links here names (.present place)) :
    ∃ left, ∀ {rest spot}, v.Leads left place rest spot →
      v.Leads links here (names ++ rest) spot := by
  generalize hspot : Spot.present place = spot at h
  induction h with
  | arrived links here => cases hspot; exact ⟨links, id⟩
  | stay hdirectory _ ih =>
      obtain ⟨left, hleft⟩ := ih hspot
      exact ⟨left, fun h => .stay hdirectory (hleft h)⟩
  | up hdirectory _ ih =>
      obtain ⟨left, hleft⟩ := ih hspot
      exact ⟨left, fun h => .up hdirectory (hleft h)⟩
  | vacant => cases hspot
  | link hdirectory hname hentry _ ih =>
      obtain ⟨left, hleft⟩ := ih hspot
      refine ⟨left, fun h => ?_⟩
      have hleads := hleft h
      rw [List.append_assoc] at hleads
      exact .link hdirectory hname hentry hleads
  | down hdirectory hname hentry hlink _ ih =>
      obtain ⟨left, hleft⟩ := ih hspot
      exact ⟨left, fun h => .down hdirectory hname hentry hlink (hleft h)⟩

/-- A walk that leads to a directory does not pass through an entry that leads to none. When such
an entry is removed the walk leads where it did. -/
theorem remove {directory found : Place} {name : String} {links' : Nat}
    (h : v.Leads links here names (.present place)) (hplace : v.entry? place = some .directory)
    (hname : v.Leads links' directory [name] (.present found))
    (hentry : v.entry? (name :: directory) ≠ some .directory)
    (hfound : v.entry? found ≠ some .directory) :
    (v.remove (name :: directory)).Leads links here names (.present place) := by
  have hne : name :: directory ≠ [] := List.cons_ne_nil _ _
  have hkept : ∀ {other : Place} {entry : Entry}, name :: directory ≠ other →
      v.entry? other = some entry → entry? (v.remove (name :: directory)) other = some entry := by
    intro other entry hother h
    rw [entry?_remove hne, if_neg hother, h]
  have hkeptDirectory : ∀ {other : Place}, v.entry? other = some .directory →
      entry? (v.remove (name :: directory)) other = some .directory := by
    intro other h
    refine hkept ?_ h
    rintro rfl
    exact hentry h
  -- The entry under the name leads to `found`, and nothing goes on from there.
  have havoids : ∀ {links : Nat} {here : Place} {first : String} {rest : List String},
      v.Leads links here (first :: rest) (.present place) →
      name :: directory ≠ first :: here := by
    rintro links here first rest h heq
    cases heq
    rw [← List.singleton_append] at h
    obtain ⟨between, left, hfirst, hrest⟩ := h.exists_split
    cases hfirst.unique_of_links hname
    exact hfound (hrest.directory_here hplace)
  generalize hspot : Spot.present place = spot at h
  induction h with
  | arrived links here => exact .arrived links here
  | stay hdirectory _ ih => exact .stay (hkeptDirectory hdirectory) (ih hspot)
  | up hdirectory _ ih => exact .up (hkeptDirectory hdirectory) (ih hspot)
  | vacant => cases hspot
  | link hdirectory hlookedUp hlink h ih =>
      subst hspot
      have hother := havoids (.link hdirectory hlookedUp hlink h)
      exact .link (hkeptDirectory hdirectory) hlookedUp (hkept hother hlink) (ih rfl)
  | down hdirectory hlookedUp hentry' hlink h ih =>
      subst hspot
      have hother := havoids (.down hdirectory hlookedUp hentry' hlink h)
      exact .down (hkeptDirectory hdirectory) hlookedUp (hkept hother hentry') hlink (ih rfl)

end Leads

/-! ## The path of an entry -/

/-- A path leads to a directory, and a name can be looked up there through a path that is not too
long. -/
structure LooksUp (v : Volume) (d : String) (place : Place) (name : String) : Prop where
  resolve : v.resolve d = .ok place
  isDirectory : v.entry? place = some .directory
  proper : name ≠ "" ∧ name ≠ "." ∧ name ≠ ".." ∧ '/' ∉ name.toList ∧ '\x00' ∉ name.toList
  size_path : (Path.entry d name).utf8ByteSize < Path.maxBytes
  size_name : name.utf8ByteSize ≤ Path.maxNameBytes

namespace LooksUp

variable {d name : String} {place : Place} (h : v.LooksUp d place name)

include h

theorem lookedUp : IsLookedUp name :=
  ⟨h.proper.2.1, h.proper.2.2.1, h.size_name⟩

theorem exists_leads : ∃ path front, Path.ofString (Path.entry d name) = .ok path ∧
    path.names = front ++ [name] ∧ path.slash = false ∧
      v.Leads maxLinks (origin path v.home) front (.present place) := by
  obtain ⟨path, hpath, hleads⟩ := resolve_eq_ok_iff.1 h.resolve
  obtain ⟨hname, -, -, hslash, hnul⟩ := h.proper
  exact ⟨_, path.names, Path.ofString_entry hpath hname hslash hnul h.size_path, rfl, rfl,
    hleads.names_of_steps⟩

theorem removable {entry : Entry} (hentry : v.entry? (name :: place) = some entry)
    (hdirectory : entry ≠ .directory) : v.Removable (Path.entry d name) place name :=
  ⟨h.exists_leads, h.isDirectory, h.lookedUp, entry, hentry, hdirectory⟩

theorem names : v.Names (Path.entry d name) (name :: place) := by
  obtain ⟨path, front, hpath, hnames, -, hleads⟩ := h.exists_leads
  have hslot := slot_of_leads hpath hnames hleads h.isDirectory
  rw [Last.ofName_of_ne h.lookedUp.ne_here h.lookedUp.ne_parent] at hslot
  exact names_of_slot hslot h.size_name

theorem resolve_entry {entry : Entry} (hentry : v.entry? (name :: place) = some entry)
    (hlink : ∀ target, entry ≠ .link target) :
    v.resolve (Path.entry d name) = .ok (name :: place) := by
  obtain ⟨path, front, hpath, hnames, hslash, hleads⟩ := h.exists_leads
  obtain ⟨left, hleft⟩ := hleads.exists_append
  refine resolve_eq_ok_iff.2 ⟨path, hpath, ?_⟩
  rw [Path.steps, hslash, if_neg Bool.false_ne_true, hnames]
  exact hleft (.down h.isDirectory h.lookedUp hentry hlink (.arrived left (name :: place)))

/-- Where the path of an entry leads, its name leads from the directory. -/
theorem leads_of_resolve {found : Place} (hfound : v.resolve (Path.entry d name) = .ok found) :
    ∃ links, v.Leads links place [name] (.present found) := by
  obtain ⟨path, front, hpath, hnames, hslash, hfront⟩ := h.exists_leads
  obtain ⟨path', hpath', hleads⟩ := resolve_eq_ok_iff.1 hfound
  obtain rfl : path = path' := Except.ok.inj (hpath.symm.trans hpath')
  rw [Path.steps, hslash, if_neg Bool.false_ne_true, hnames] at hleads
  obtain ⟨between, left, hfront', hname⟩ := hleads.exists_split
  cases hfront.unique hfront'
  exact ⟨left, hname⟩

theorem resolve_remove {found : Place} (hfound : v.resolve (Path.entry d name) = .ok found)
    (hentry : v.entry? (name :: place) ≠ some .directory)
    (hdirectory : v.entry? found ≠ some .directory) :
    (v.remove (name :: place)).resolve d = .ok place := by
  obtain ⟨path, hpath, hleads⟩ := resolve_eq_ok_iff.1 h.resolve
  obtain ⟨links, hname⟩ := h.leads_of_resolve hfound
  exact resolve_eq_ok_iff.2
    ⟨path, hpath, hleads.remove h.isDirectory hname hentry hdirectory⟩

end LooksUp

end Volume
end FileChores
