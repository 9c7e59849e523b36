import FileChores.Proofs.Volume.Measuring
import FileChores.Proofs.Volume.Relocating

/-!
# Moving there and back

What has been moved to a free place is moved back by the opposite move, and the volume is then what
it was. While it is away, every directory that holds both places holds as many bytes as before.
-/

namespace FileChores

namespace Path

theorem mem_pieces {piece spelling : List Char} (h : piece ∈ pieces spelling) :
    ∀ c ∈ piece, c ≠ '/' ∧ c ∈ spelling := by
  fun_induction pieces spelling generalizing piece with
  | case1 =>
      rw [List.mem_singleton.1 h]
      exact fun c hc => absurd hc List.not_mem_nil
  | case2 rest ih =>
      rcases List.mem_cons.1 h with rfl | h
      · exact fun c hc => absurd hc List.not_mem_nil
      · exact fun c hc => (ih h c hc).imp_right (List.mem_cons_of_mem _)
  | case3 first rest hfirst hpieces ih =>
      intro c hc
      rw [List.mem_singleton.1 h, List.mem_singleton] at hc
      rw [hc]
      exact ⟨hfirst, List.mem_cons_self⟩
  | case4 first rest hfirst piece' others hpieces ih =>
      intro c hc
      rw [hpieces] at ih
      rcases List.mem_cons.1 h with rfl | h
      · rcases List.mem_cons.1 hc with rfl | hc
        · exact ⟨hfirst, List.mem_cons_self⟩
        · exact (ih List.mem_cons_self c hc).imp_right (List.mem_cons_of_mem _)
      · exact (ih (List.mem_cons_of_mem _ h) c hc).imp_right (List.mem_cons_of_mem _)

theorem proper_of_mem_names {spelling name : String} {path : Path}
    (hpath : ofString spelling = .ok path) (h : name ∈ path.names) :
    name ≠ "" ∧ '/' ∉ name.toList ∧ '\x00' ∉ name.toList := by
  unfold ofString at hpath
  split at hpath
  · cases hpath
  next hnul =>
  split at hpath
  · cases hpath
  split at hpath
  · cases hpath
  cases hpath
  obtain ⟨piece, hpiece, rfl⟩ := List.mem_map.1 h
  obtain ⟨hmem, hpiece⟩ := List.mem_filter.1 hpiece
  have hchars := mem_pieces hmem
  rw [String.toList_ofList]
  refine ⟨?_, fun hslash => (hchars _ hslash).1 rfl, fun hzero => hnul ?_⟩
  · intro hempty
    rw [String.ofList_eq_empty_iff.1 hempty] at hpiece
    cases hpiece
  · rw [List.contains_iff_mem]
    exact (hchars _ hzero).2

end Path

namespace Volume

variable {v v' : Volume} {source target : Place}

/-! ## Moves that can be undone -/

namespace Relocated

/-- What has been moved to a free place can be seen as moved back. -/
theorem symm (h : v.Relocated v' source target) (hfree : v.entry? target = none) :
    v'.Relocated v target source where
  target_outside := h.source_outside
  source_outside := h.target_outside
  empty inner _ := h.gone inner
  alike entry hentry := by cases (h.gone []).symm.trans hentry
  arrives inner := (h.arrives inner).symm
  gone inner := by
    cases inner with
    | nil => exact hfree
    | cons name inner => exact h.empty (name :: inner) (List.cons_ne_nil _ _)
  kept place hsource htarget := (h.kept place htarget hsource).symm

theorem unique {v₁ v₂ : Volume} (h₁ : v.Relocated v₁ source target)
    (h₂ : v.Relocated v₂ source target) (place : Place) : v₁.entry? place = v₂.entry? place := by
  by_cases htarget : target <:+ place
  · obtain ⟨inner, rfl⟩ := htarget
    rw [h₁.arrives, h₂.arrives]
  by_cases hsource : source <:+ place
  · obtain ⟨inner, rfl⟩ := hsource
    rw [h₁.gone, h₂.gone]
  · rw [h₁.kept place hsource htarget, h₂.kept place hsource htarget]

end Relocated

/-! ## Plain paths -/

structure GoesDown (v : Volume) (spelling : String) (directory : Place) (name : String) :
    Prop where
  path : ∃ front, Path.ofString spelling = .ok ⟨false, front ++ [name], false⟩ ∧
    (∀ step ∈ front, IsLookedUp step) ∧ directory = front.reverse ++ v.home
  lookedUp : IsLookedUp name
  isDirectory : v.entry? directory = some .directory

theorem leads_append {links : Nat} {here : Place} {front rest : List String} {spot : Spot}
    (hv : v.WellFormed) (hfront : ∀ step ∈ front, IsLookedUp step)
    (hdirectory : v.entry? (front.reverse ++ here) = some .directory)
    (h : v.Leads links (front.reverse ++ here) rest spot) :
    v.Leads links here (front ++ rest) spot := by
  induction front generalizing here with
  | nil => exact h
  | cons name front ih =>
      rw [List.reverse_cons, List.append_assoc] at hdirectory h
      have hentry := hv.directory_of_isSuffix hdirectory (List.suffix_append _ _)
      exact .down (hv.tail hentry) (hfront name List.mem_cons_self) hentry (fun _ h => by cases h)
        (ih (fun step hstep => hfront step (List.mem_cons_of_mem _ hstep)) hdirectory h)

theorem Leads.place_eq {links : Nat} {here : Place} {names : List String} {spot : Spot}
    (h : v.Leads links here names spot) (hhere : "." ∉ names) (hparent : ".." ∉ names)
    (hlinks : ∀ outer, here <:+ outer → outer <:+ names.reverse ++ here →
      ∀ target, v.entry? outer ≠ some (.link target)) :
    (∀ name ∈ names, IsLookedUp name) ∧ spot.place = names.reverse ++ here := by
  induction h with
  | arrived links here => exact ⟨fun name hname => absurd hname List.not_mem_nil, rfl⟩
  | stay => exact absurd List.mem_cons_self hhere
  | up => exact absurd List.mem_cons_self hparent
  | vacant _ hname _ =>
      refine ⟨fun other hother => ?_, rfl⟩
      rwa [List.mem_singleton.1 hother]
  | link _ _ hentry _ ih =>
      refine absurd hentry (hlinks _ (List.suffix_cons _ _) ?_ _)
      rw [List.reverse_cons, List.append_assoc]
      exact List.suffix_append _ _
  | @down links here name entry rest spot _ hname _ _ _ ih =>
      have hsuffix : (name :: rest).reverse ++ here = rest.reverse ++ name :: here := by
        rw [List.reverse_cons, List.append_assoc]
        rfl
      rw [hsuffix] at hlinks ⊢
      obtain ⟨hrest, hplace⟩ := ih (fun h => hhere (List.mem_cons_of_mem _ h))
        (fun h => hparent (List.mem_cons_of_mem _ h))
        fun outer houter => hlinks outer ((List.suffix_cons _ _).trans houter)
      refine ⟨fun other hother => ?_, hplace⟩
      rcases List.mem_cons.1 hother with rfl | hother
      · exact hname
      · exact hrest other hother

namespace GoesDown

variable {spelling name : String} {directory : Place}

section

variable (hv : v.WellFormed) (h : v.GoesDown spelling directory name)

include hv h

theorem exists_leads (links : Nat) :
    ∃ front, Path.ofString spelling = .ok ⟨false, front ++ [name], false⟩ ∧
      ∀ {rest : List String} {spot : Spot}, v.Leads links directory rest spot →
        v.Leads links v.home (front ++ rest) spot := by
  obtain ⟨front, hpath, hfront, rfl⟩ := h.path
  exact ⟨front, hpath, leads_append hv hfront h.isDirectory⟩

theorem removable {entry : Entry} (hentry : v.entry? (name :: directory) = some entry)
    (hdirectory : entry ≠ .directory) : v.Removable spelling directory name := by
  obtain ⟨front, hpath, hleads⟩ := h.exists_leads hv maxLinks
  have hfront := hleads (.arrived maxLinks directory)
  rw [List.append_nil] at hfront
  exact ⟨⟨_, front, hpath, rfl, rfl, hfront⟩, h.isDirectory, h.lookedUp, entry, hentry, hdirectory⟩

theorem slot : v.slot spelling = .ok ⟨directory, .name name, false⟩ := by
  obtain ⟨front, hpath, hleads⟩ := h.exists_leads hv maxLinks
  have hfront := hleads (.arrived maxLinks directory)
  rw [List.append_nil] at hfront
  rw [slot_of_leads hpath rfl hfront h.isDirectory,
    Last.ofName_of_ne h.lookedUp.ne_here h.lookedUp.ne_parent]

theorem resolve {entry : Entry} (hentry : v.entry? (name :: directory) = some entry)
    (hlink : ∀ target, entry ≠ .link target) : v.resolve spelling = .ok (name :: directory) := by
  obtain ⟨front, hpath, hleads⟩ := h.exists_leads hv maxLinks
  refine resolve_eq_ok_iff.2 ⟨_, hpath, ?_⟩
  exact hleads (.down h.isDirectory h.lookedUp hentry hlink (.arrived _ _))

theorem writable (hfree : v.entry? (name :: directory) = none) :
    v.writable spelling = .ok (.vacant directory name) := by
  -- No link is passed, so the names lead there without any.
  obtain ⟨front, hpath, hleads⟩ := h.exists_leads hv 0
  obtain ⟨stop, hadvance, hstop⟩ :=
    (hleads (.vacant h.isDirectory h.lookedUp hfree)).exists_advance
  have hmissing : stop = .missing directory name [] := by
    rcases stop with place | ⟨directory, other, _ | _⟩ | ⟨directory, target, rest⟩ <;> cases hstop
    rfl
  unfold Volume.writable
  rw [hpath]
  change v.writableFrom maxLinks v.home ⟨false, front ++ [name], false⟩ = _
  unfold writableFrom origin
  simp only [Bool.false_eq_true, if_false, hadvance, hmissing]
  rfl

end

theorem home_outside (h : v.GoesDown spelling directory name) :
    ¬ name :: directory <:+ v.home := by
  obtain ⟨front, -, -, rfl⟩ := h.path
  intro hsuffix
  have hlength := hsuffix.length_le
  simp only [List.length_cons, List.length_append, List.length_reverse] at hlength
  omega

theorem keep {v' : Volume} (h : v.GoesDown spelling directory name) (hhome : v'.home = v.home)
    (hdirectory : v'.entry? directory = some .directory) :
    v'.GoesDown spelling directory name := by
  obtain ⟨front, hpath, hfront, hplace⟩ := h.path
  exact ⟨⟨front, hpath, hfront, by rw [hplace, hhome]⟩, h.lookedUp, hdirectory⟩

theorem proper (h : v.GoesDown spelling directory name) :
    name ≠ "" ∧ name ≠ "." ∧ name ≠ ".." ∧ '/' ∉ name.toList ∧ '\x00' ∉ name.toList := by
  obtain ⟨front, hpath, -, -⟩ := h.path
  obtain ⟨hempty, hslash, hnul⟩ :=
    Path.proper_of_mem_names hpath (List.mem_append_right _ (List.mem_singleton_self name))
  exact ⟨hempty, h.lookedUp.ne_here, h.lookedUp.ne_parent, hslash, hnul⟩

end GoesDown

/-- A plain path goes down from the working directory, and no entry on the way is a link. -/
structure Plain (v : Volume) (spelling : String) (names : List String) : Prop where
  split : Path.split spelling = ⟨false, names, false⟩
  ne_here : "." ∉ names
  ne_parent : ".." ∉ names
  links : ∀ outer, v.home <:+ outer → outer <:+ names.reverse ++ v.home →
    ∀ target, v.entry? outer ≠ some (.link target)

theorem Path.ofString_eq_split {spelling : String} {path : Path}
    (h : Path.ofString spelling = .ok path) : path = Path.split spelling := by
  unfold Path.ofString at h
  split at h
  · cases h
  split at h
  · cases h
  split at h
  · cases h
  · exact (Except.ok.inj h).symm

theorem Plain.goesDown {spelling : String} {names : List String} {place : Place}
    (h : v.Plain spelling names) (hnames : v.Names spelling place) :
    ∃ name directory, v.GoesDown spelling directory name ∧ place = name :: directory ∧
      names.reverse ++ v.home = name :: directory := by
  rcases place with _ | ⟨name, directory⟩
  · exact absurd hnames id
  obtain ⟨hsize, slash, hslot⟩ := hnames
  obtain ⟨path, front, hpath, hfront, -, hhere, hparent, hleads, hdirectory⟩ :=
    exists_leads_of_slot hslot
  obtain rfl := (Path.ofString_eq_split hpath).trans h.split
  obtain rfl : names = front ++ [name] := hfront
  have hplace : (front ++ [name]).reverse ++ v.home = name :: (front.reverse ++ v.home) := by
    rw [List.reverse_append]
    rfl
  obtain ⟨hlookedUp, hdown⟩ := hleads.place_eq
    (fun hmem => h.ne_here (List.mem_append_left _ hmem))
    (fun hmem => h.ne_parent (List.mem_append_left _ hmem))
    fun outer houter hinner => h.links outer houter <| hinner.trans <| by
      rw [hplace]
      exact List.suffix_cons _ _
  obtain rfl : directory = front.reverse ++ v.home := hdown
  exact ⟨name, _, ⟨⟨front, hpath, hlookedUp, rfl⟩, ⟨hhere, hparent, hsize⟩, hdirectory⟩, rfl,
    hplace⟩

/-! ## The way back -/

structure Moves (v v' : Volume) (source target : Place) : Prop
    extends v.Relocated v' source target where
  home : v'.home = v.home
  root : v'.entries[([] : Place)]? = v.entries[([] : Place)]?

theorem Moves.trans_back {v'' : Volume} (h : v.Moves v' source target)
    (hback : v'.Moves v'' target source) (hfree : v.entry? target = none) : v'' = v := by
  have hentry := hback.toRelocated.unique (h.toRelocated.symm hfree)
  have hentries : v''.entries = v.entries := by
    refine Std.ExtTreeMap.ext_getElem? fun place => ?_
    cases place with
    | nil => rw [hback.root, h.root]
    | cons name parent => exact hentry (name :: parent)
  have hhome := hback.home.trans h.home
  cases v
  cases v''
  cases hentries
  cases hhome
  rfl

theorem moves_graft (h : v.Relocated (v.graft source target) source target)
    (hhome : ¬ source <:+ v.home) : v.Moves (v.graft source target) source target := by
  refine ⟨h, ?_, h.toGraftable.getElem?_graft_other ?_ ?_⟩
  · exact Place.moved_of_not_suffix hhome target
  · exact fun hnil => h.source_ne_nil (List.suffix_nil.1 hnil)
  · exact fun hnil => h.target_ne_nil (List.suffix_nil.1 hnil)

/-- Writing the bytes of a file to a free place and removing the file moves it. -/
theorem moves_copied (hv : v.WellFormed) {content : ByteArray} (hsource : source ≠ [])
    (htarget : target ≠ []) (hentry : v.entry? source = some (.file content))
    (hfree : v.entry? target = none) (hparent : v.entry? target.tail = some .directory) :
    v.Moves ((v.put target (.file content)).remove source) source target := by
  have hlookup (place : Place) : entry? ((v.put target (.file content)).remove source) place =
      if source = place then none
      else if target = place then some (.file content) else v.entry? place := by
    rw [entry?_remove hsource, entry?_put htarget]
  have hne : target ≠ source := by
    rintro rfl
    cases hfree.symm.trans hentry
  have hsourceBelow : ∀ inner, inner ≠ [] → v.entry? (inner ++ source) = none :=
    hv.empty_below fun h => by cases hentry.symm.trans h
  have htargetBelow : ∀ inner, inner ≠ [] → v.entry? (inner ++ target) = none :=
    hv.empty_below fun h => by cases hfree.symm.trans h
  have htargetOutside : ¬ source <:+ target := by
    refine not_suffix_of_tail hne fun hsuffix => ?_
    cases hentry.symm.trans (hv.directory_of_isSuffix hparent hsuffix)
  have hsourceOutside : ¬ target <:+ source := by
    intro hsuffix
    have hfound : v.entry? source ≠ none := by
      rw [hentry]
      exact Option.some_ne_none _
    cases hfree.symm.trans (hv.entry?_of_isSuffix hfound hsuffix hne)
  refine ⟨⟨⟨htargetOutside, hsourceOutside, htargetBelow⟩, ?_, fun inner => ?_, fun inner => ?_,
    ?_⟩, rfl, ?_⟩
  · intro entry htarget'
    cases hfree.symm.trans htarget'
  · rw [hlookup, if_neg fun h => hsourceOutside ⟨inner, h.symm⟩]
    rcases inner with _ | ⟨name, inner⟩
    · exact (if_pos rfl).trans hentry.symm
    · rw [htargetBelow _ (List.cons_ne_nil _ _), hsourceBelow _ (List.cons_ne_nil _ _), if_neg]
      intro hself
      exact List.cons_ne_nil name inner (List.append_left_eq_self.1 hself.symm)
  · rw [hlookup]
    rcases inner with _ | ⟨name, inner⟩
    · exact if_pos rfl
    · have hother : target ≠ name :: inner ++ source := fun h => htargetOutside ⟨_, h.symm⟩
      rw [hsourceBelow _ (List.cons_ne_nil _ _), if_neg hother, ite_self]
  · intro place hsource' htarget'
    rw [hlookup, if_neg, if_neg]
    · rintro rfl
      exact htarget' (List.suffix_refl _)
    · rintro rfl
      exact hsource' (List.suffix_refl _)
  · simp [remove, put, Std.ExtTreeMap.getElem?_erase, Std.ExtTreeMap.getElem?_insert, hsource,
      htarget]

section

variable {a b name name' : String} {directory directory' : Place} {entry : Entry}

/-- What is no link is moved down to a free place, unless a directory would have to be copied or
would come to lie in itself. -/
theorem relocate_down (hv : v.WellFormed) (ha : v.GoesDown a directory name)
    (hb : v.GoesDown b directory' name') (hentry : v.entry? (name :: directory) = some entry)
    (hlink : ∀ target, entry ≠ .link target) (hfree : v.entry? (name' :: directory') = none)
    (houtside : ¬ name :: directory <:+ name' :: directory')
    (hkind : onDeviceTree directory = onDeviceTree directory' ∨ ∃ content, entry = .file content) :
    ∃ detour v', v.relocate a b = (.ok (), detour, v') ∧
      v.Moves v' (name :: directory) (name' :: directory') := by
  have hresolve := ha.resolve hv hentry hlink
  have hresolves : v.resolves a = true := resolves_iff.2 ⟨_, hresolve⟩
  by_cases hdevice : onDeviceTree directory = onDeviceTree directory'
  · have hinside : ¬ name' :: directory' <:+ name :: directory := by
      refine not_suffix_of_tail ?_ fun hsuffix => ?_
      · intro heq
        rw [heq, hfree] at hentry
        cases hentry
      · cases hfree.symm.trans (hv.directory_of_isSuffix ha.isDirectory hsuffix)
    have hgraftable : v.Graftable (name :: directory) (name' :: directory') :=
      ⟨houtside, hinside, hv.empty_below fun h => by cases hfree.symm.trans h⟩
    have hreplace : v.mayReplace entry (name' :: directory') = .ok () :=
      mayReplace_eq_ok_iff.2 fun _ h => by cases hfree.symm.trans h
    have hrename : v.rename a b = .ok (v.graft (name :: directory) (name' :: directory')) := by
      rw [rename_of_slots (ha.slot hv) (hb.slot hv) ha.lookedUp hb.lookedUp hentry hdevice,
        renameEntry]
      simp only [Place.isSome_below?_iff, List.tail_cons]
      rw [if_neg fun h => houtside (h.trans (List.suffix_cons _ _)),
        if_neg fun h => hinside (h.trans (List.suffix_cons _ _)), if_neg, hreplace]
      · rfl
      · intro heq
        exact houtside (heq ▸ List.suffix_refl _)
    refine ⟨none, _, ?_, moves_graft (hgraftable.relocated fun _ h => ?_) ha.home_outside⟩
    · rw [relocate_eq, if_pos hresolves, hrename]
    · cases hfree.symm.trans h
  · obtain ⟨content, rfl⟩ := hkind.resolve_left hdevice
    have hrename : v.rename a b = .error .crossDevice := by
      simp only [rename, planRename, ha.slot hv, hb.slot hv, bind, Except.bind, renameSlot, ne_eq,
        hdevice, not_false_eq_true, if_true]
    have hfile : v.fileAt? (name :: directory) = some content := fileAt?_eq_some_iff.2 hentry
    have hcopy : v.copy a b = .ok (content.size, v.put (name' :: directory') (.file content)) := by
      simp only [copy, hresolve, hfile, hb.writable hv hfree, bind, Except.bind, transfer]
      rfl
    have htakes : v.TakesFile (name' :: directory') := ⟨List.cons_ne_nil _ _, .inl hfree⟩
    have hremovable := (ha.removable hv hentry fun h => by cases h).put htakes content
    refine ⟨some .crossDevice, _, ?_, moves_copied hv (List.cons_ne_nil _ _) (List.cons_ne_nil _ _)
      hentry hfree hb.isDirectory⟩
    simp only [relocate_eq, hresolves, hrename, isFile, hresolve, hfile, hcopy, hremovable.unlink,
      Host.settle, Option.isSome_some, if_true]

theorem exists_down_of_relocate {names names' : List String} {detour : Option Refusal}
    (hv : v.WellFormed) (ha : v.Plain a names) (hb : v.Plain b names')
    (hfree : v.entry? (names'.reverse ++ v.home) = none)
    (h : v.relocate a b = (.ok (), detour, v')) :
    ∃ name directory name' directory' entry,
      v.GoesDown a directory name ∧ names.reverse ++ v.home = name :: directory ∧
      v.GoesDown b directory' name' ∧ names'.reverse ++ v.home = name' :: directory' ∧
      v.entry? (name :: directory) = some entry ∧ ¬ name :: directory <:+ name' :: directory' ∧
      (onDeviceTree directory = onDeviceTree directory' ∨ ∃ content, entry = .file content) := by
  rcases relocate_eq_ok h with hrename | ⟨cause, n, copied, -, hcopy, -⟩
  · obtain ⟨moved, old, new, hrenames, hmoved⟩ := relocated_of_rename hv hrename
    obtain ⟨name, directory, hold, rfl, hplace⟩ := ha.goesDown hrenames.source
    obtain ⟨name', directory', hnew, rfl, hplace'⟩ := hb.goesDown hrenames.target
    refine ⟨name, directory, name', directory', moved, hold, hplace, hnew, hplace',
      hrenames.entry, ?_, .inl hrenames.device⟩
    rcases hmoved with ⟨heq, -⟩ | ⟨-, -, hrelocated⟩
    · rw [hplace', ← heq, hrenames.entry] at hfree
      cases hfree
    · exact hrelocated.target_outside
  · obtain ⟨place, content, spot, hcopies, -⟩ := exists_copies hcopy
    obtain ⟨directory, name, hslot, hparent, hname, -, hfinal⟩ :=
      exists_slot_of_file hv hcopies.resolve hcopies.entry
    obtain ⟨directory', name', hslot', hparent', hname', -⟩ :=
      exists_slot_of_writable hv hcopies.writable
    have hnames : v.Names a (name :: directory) := ⟨hname.size_le, false, hslot⟩
    have hnames' : v.Names b (name' :: directory') := ⟨hname'.size_le, false, hslot'⟩
    obtain ⟨_, _, hold, heq, hplace⟩ := ha.goesDown hnames
    obtain ⟨rfl, rfl⟩ := List.cons.inj heq
    obtain ⟨_, _, hnew, heq', hplace'⟩ := hb.goesDown hnames'
    obtain ⟨rfl, rfl⟩ := List.cons.inj heq'
    have hentry : v.entry? (name :: directory) = some (.file content) := by
      obtain ⟨moved, hmoved, -⟩ := hfinal.exists_entry hv hparent hcopies.entry
      cases hfinal.eq_present hname hmoved fun target hlink => by
        rw [← hplace, hlink] at hmoved
        exact ha.links _ (List.suffix_append _ _) (List.suffix_refl _) target hmoved
      exact hcopies.entry
    rw [hplace'] at hfree
    refine ⟨name, directory, name', directory', _, hold, hplace, hnew, hplace', hentry, ?_,
      .inr ⟨content, rfl⟩⟩
    refine not_suffix_of_tail ?_ fun hsuffix => ?_
    · intro heq
      rw [← heq, hfree] at hentry
      cases hentry
    · cases hentry.symm.trans (hv.directory_of_isSuffix hparent' hsuffix)

end

/-! ## The space in between -/

theorem Relocated.entry?_moved_of_free (h : v.Relocated v' source target)
    (hfree : v.entry? target = none) {place : Place} (hplace : v.entry? place ≠ none) :
    v'.entry? (Place.moved source target place) = v.entry? place ∧
      Place.moved target source (Place.moved source target place) = place := by
  by_cases hsource : source <:+ place
  · obtain ⟨inner, rfl⟩ := hsource
    rw [Place.moved_append, Place.moved_append, h.arrives]
    exact ⟨rfl, rfl⟩
  · have htarget : ¬ target <:+ place := by
      rintro ⟨inner, rfl⟩
      exact hplace ((h.symm hfree).gone inner)
    rw [Place.moved_of_not_suffix hsource, Place.moved_of_not_suffix htarget,
      h.kept place hsource htarget]
    exact ⟨rfl, rfl⟩

theorem lengthAt_congr {place place' : Place} (h : v'.entry? place' = v.entry? place) :
    v'.lengthAt place' = v.lengthAt place := by
  unfold lengthAt fileAt?
  rw [h]

section

variable {root : Place} (hv : v.WellFormed) (hv' : v'.WellFormed) (hroot : v.entry? root ≠ none)
  (hroot' : v'.entry? root ≠ none)

include hv hv' hroot hroot'

theorem Relocated.moved_mem_filesWithin (h : v.Relocated v' source target)
    (hfree : v.entry? target = none) (htarget : root <:+ target) {place : Place}
    (hplace : place ∈ v.filesWithin root) :
    Place.moved source target place ∈ v'.filesWithin root := by
  rw [mem_filesWithin_iff, hv.within_iff hroot] at hplace
  obtain ⟨⟨hbelow, hentry⟩, hfile⟩ := hplace
  rw [mem_filesWithin_iff, hv'.within_iff hroot', (h.entry?_moved_of_free hfree hentry).1]
  refine ⟨⟨?_, hentry⟩, hfile⟩
  by_cases hsource : source <:+ place
  · obtain ⟨inner, rfl⟩ := hsource
    rw [Place.moved_append]
    exact htarget.trans (List.suffix_append _ _)
  · rwa [Place.moved_of_not_suffix hsource]

theorem Relocated.lengthWithin_eq (h : v.Relocated v' source target)
    (hfree : v.entry? target = none) (hsource : root <:+ source) (htarget : root <:+ target) :
    v'.lengthWithin root = v.lengthWithin root := by
  have hback := h.symm hfree
  have hgone : v'.entry? source = none := h.gone []
  have hentry {place : Place} (hplace : place ∈ v.filesWithin root) : v.entry? place ≠ none :=
    (mem_filesWithin_iff.1 hplace).1.entry?_ne_none hroot
  have hentry' {place : Place} (hplace : place ∈ v'.filesWithin root) : v'.entry? place ≠ none :=
    (mem_filesWithin_iff.1 hplace).1.entry?_ne_none hroot'
  unfold lengthWithin
  symm
  refine Finset.sum_nbij' (Place.moved source target) (Place.moved target source) ?_ ?_ ?_ ?_ ?_
  · exact fun place => h.moved_mem_filesWithin hv hv' hroot hroot' hfree htarget
  · exact fun place => hback.moved_mem_filesWithin hv' hv hroot' hroot hgone hsource
  · exact fun place hplace => (h.entry?_moved_of_free hfree (hentry hplace)).2
  · exact fun place hplace => (hback.entry?_moved_of_free hgone (hentry' hplace)).2
  · exact fun place hplace =>
      (lengthAt_congr (h.entry?_moved_of_free hfree (hentry hplace)).1).symm

end

/-- What a move between plain paths has taken to a free place the opposite move takes back, and the
volume is what it was. In between every directory that holds both places is told to take the same
space, by every path that leads to it and stays within the limit below it. -/
theorem answer_move_back (hv : v.WellFormed) {a b : String} {names names' : List String}
    (ha : v.Plain a names) (hb : v.Plain b names')
    (hfree : v.entry? (names'.reverse ++ v.home) = none) {detour : Option Refusal}
    (h : fileSystem.answer (.move a b) v = (⟨.ok (), detour⟩, v')) :
    (∃ detour', fileSystem.answer (.move b a) v' = (⟨.ok (), detour'⟩, v)) ∧
      ∀ root p q, root <:+ (names.reverse ++ v.home).tail →
        root <:+ (names'.reverse ++ v.home).tail →
        v.resolve p = .ok root → v.entryAt p = .ok root →
        v'.resolve q = .ok root → v'.entryAt q = .ok root →
        v.Fits p root → v'.Fits q root →
        (fileSystem.answer (.space q) v').1.result =
          (fileSystem.answer (.space p) v).1.result := by
  have hrelocate := answer_move_eq_iff.1 h
  obtain ⟨name, directory, name', directory', entry, hold, hplace, hnew, hplace', hentry,
    houtside, hkind⟩ := exists_down_of_relocate hv ha hb hfree hrelocate
  have hlink (target : String) : entry ≠ .link target := by
    rintro rfl
    refine ha.links _ (List.suffix_append names.reverse _) (List.suffix_refl _) target ?_
    rw [hplace, hentry]
  rw [hplace'] at hfree ⊢
  rw [hplace]
  obtain ⟨_, moved, hmoved, hmoves⟩ := relocate_down hv hold hnew hentry hlink hfree houtside hkind
  obtain rfl : moved = v' := (Prod.mk.inj (Prod.mk.inj (hmoved.symm.trans hrelocate)).2).2
  have hv' : moved.WellFormed := by
    refine hmoves.wellFormed hv hnew.isDirectory hnew.proper ?_
    rw [hmoves.home, Place.moved_of_not_suffix hold.home_outside]
  have hkept : moved.entry? directory = some .directory := by
    rw [hmoves.kept directory, hold.isDirectory]
    · exact fun hsuffix => absurd hsuffix.length_le (Nat.not_succ_le_self _)
    · exact fun hsuffix => hmoves.source_outside (hsuffix.trans (List.suffix_cons _ _))
  have hold' : moved.GoesDown a directory name := hold.keep hmoves.home hkept
  have hnew' : moved.GoesDown b directory' name' :=
    hnew.keep hmoves.home (hmoves.entry?_parent hnew.isDirectory)
  obtain ⟨detour', back, hback, hmovesBack⟩ :=
    relocate_down hv' hnew' hold' ((hmoves.arrives []).trans hentry) hlink (hmoves.gone [])
      hmoves.source_outside (hkind.imp_left Eq.symm)
  refine ⟨⟨detour', ?_⟩, fun root p q hsource htarget hp hp' hq hq' hfits hfits' => ?_⟩
  · rw [answer_move_eq_iff, hback, hmoves.trans_back hmovesBack hfree]
  · have hroot := entry?_ne_none_of_resolve hv hp
    have hroot' := entry?_ne_none_of_resolve hv' hq
    have hsame := hmoves.lengthWithin_eq hv hv' hroot hroot' hfree
      (hsource.trans (List.suffix_cons _ _)) (htarget.trans (List.suffix_cons _ _))
    rw [answer_space_eq hp hp', answer_space_eq hq hq', (spaceFrom_measures p root hroot).ok hfits,
      (spaceFrom_measures q root hroot').ok hfits', hsame]
    rfl

theorem plain_single {spelling name : String}
    (hsplit : Path.split spelling = ⟨false, [name], false⟩) (hhere : name ≠ ".")
    (hparent : name ≠ "..")
    (hentry : ∀ target, single.entry? [name, "home"] ≠ some (.link target)) :
    single.Plain spelling [name] := by
  refine ⟨hsplit, by simpa using hhere.symm, by simpa using hparent.symm, ?_⟩
  intro outer houter hinner target
  rcases List.suffix_cons_iff.1 hinner with rfl | hinner
  · exact hentry target
  · rw [hinner.eq_of_length (le_antisymm hinner.length_le houter.length_le)]
    exact fun h => by cases h

def renamed (name : String) : Volume :=
  single.graft ["a", "home"] [name, "home"]

theorem answer_move_renamed {name : String}
    (h : single.rename "a" name = .ok (renamed name)) :
    fileSystem.answer (.move "a" name) single = (⟨.ok (), none⟩, renamed name) := by
  have hresolves : single.resolves "a" = true := resolves_iff.2 ⟨_, resolve_single⟩
  rw [answer_move_eq_iff, relocate_eq, if_pos hresolves, h]

theorem names_single : single.names ["home"] = ["a"] := by cbv

theorem plain_single_a : single.Plain "a" ["a"] := by
  refine plain_single (by cbv) (by decide) (by decide) fun target h => ?_
  cases entry?_single.symm.trans h

theorem answer_move_back_single :
    ∃ v', fileSystem.answer (.move "a" "b") single = (⟨.ok (), none⟩, v') ∧
      (∃ detour, fileSystem.answer (.move "b" "a") v' = (⟨.ok (), detour⟩, single)) ∧
      (fileSystem.answer (.space (dotted 1)) v').1.result =
        (fileSystem.answer (.space (dotted 1)) single).1.result := by
  have hmove := answer_move_renamed (by cbv : single.rename "a" "b" = .ok (renamed "b"))
  have hfree : single.entry? ["b", "home"] = none := by cbv
  have hb : single.Plain "b" ["b"] :=
    plain_single (by cbv) (by decide) (by decide) fun target h => by cases hfree.symm.trans h
  have hsize : 1 + 1 < Path.maxBytes := by decide
  have hhome : entry? (renamed "b") ["home"] = some .directory := by cbv
  have hnames : (renamed "b").names ["home"] = ["b"] := by cbv
  have hfits : single.Fits (dotted 1) ["home"] :=
    fits_of_names rfl names_single (fun h => by cases entry?_single.symm.trans h) (by cbv) (by cbv)
  have hfits' : (renamed "b").Fits (dotted 1) ["home"] := by
    refine fits_of_names hhome hnames ?_ (by cbv) (by cbv)
    cbv
    exact fun h => by cases h
  obtain ⟨hback, hspace⟩ := answer_move_back wellFormed_single plain_single_a hb hfree hmove
  exact ⟨_, hmove, hback, hspace ["home"] (dotted 1) (dotted 1) (List.suffix_refl _)
    (List.suffix_refl _) (resolve_dotted Nat.one_pos hsize rfl)
    (entryAt_dotted Nat.one_pos hsize rfl) (resolve_dotted Nat.one_pos hsize hhome)
    (entryAt_dotted Nat.one_pos hsize hhome) hfits hfits'⟩

/-- Behind a path of 4094 bytes there is room for the name of the file, but not for a longer one. -/
theorem answer_space_between :
    single.WellFormed ∧ single.Plain "a" ["a"] ∧ single.Plain "bb" ["bb"] ∧
      single.entry? ["bb", "home"] = none ∧ ∃ v',
      fileSystem.answer (.move "a" "bb") single = (⟨.ok (), none⟩, v') ∧
      single.resolve (dotted 4093) = .ok ["home"] ∧ v'.resolve (dotted 4093) = .ok ["home"] ∧
      (fileSystem.answer (.space (dotted 4093)) single).1.result = .ok 5 ∧
      (fileSystem.answer (.space (dotted 4093)) v').1.result =
        .error (.refused (dotted 4093) .nameTooLong) := by
  have hmove := answer_move_renamed (by cbv : single.rename "a" "bb" = .ok (renamed "bb"))
  have hfree : single.entry? ["bb", "home"] = none := by cbv
  have hbb : single.Plain "bb" ["bb"] :=
    plain_single (by cbv) (by decide) (by decide) fun target h => by cases hfree.symm.trans h
  have hpos : 0 < 4093 := by decide
  have hsize : 4093 + 1 < Path.maxBytes := by decide
  have hhome : entry? (renamed "bb") (renamed "bb").home = some .directory := by cbv
  have hplace := resolve_dotted (v := single) hpos hsize rfl
  have hplace' := resolve_dotted hpos hsize hhome
  have hfits : single.Fits (dotted 4093) ["home"] := by
    refine fits_of_names rfl names_single (fun h => by cases entry?_single.symm.trans h) ?_ ?_
    · rw [utf8ByteSize_dotted]
      exact hsize
    · rw [utf8ByteSize_join_dotted hpos]
      decide
  have hlength : single.lengthWithin ["home"] = 5 := by
    rw [lengthWithin_directory rfl, names_single, List.map_singleton, List.sum_singleton,
      lengthWithin_entry entry?_single fun h => by cases h]
    rfl
  have hbefore : (fileSystem.answer (.space (dotted 4093)) single).1.result = .ok 5 := by
    have hroot : single.entry? single.home ≠ none := fun h => by cases h
    rw [answer_space_eq hplace (entryAt_dotted hpos hsize rfl),
      (spaceFrom_measures (dotted 4093) single.home hroot).ok hfits, ← hlength]
    rfl
  have hentry : entry? (renamed "bb") ("bb" :: (renamed "bb").home) ≠ none := by
    cbv
    exact fun h => by cases h
  have hbetween := answer_space_dotted hpos hsize hhome hentry (by decide)
  exact ⟨wellFormed_single, plain_single_a, hbb, hfree, _, hmove, hplace, hplace', hbefore,
    congrArg (·.1.result) hbetween⟩

end Volume

end FileChores
