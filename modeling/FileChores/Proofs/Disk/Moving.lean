import FileChores.Proofs.Disk

/-!
# What a move leaves on a disk

A move is a rename, and a rename leaves two names of one file as they are. It moves any other entry
as it is, with its traits and everything below it. Where a rename is denied a file is copied, which
follows links and keeps the file that it overwrites.
-/

namespace FileChores.Disk

open Volume (Spot)

variable {d d' : Disk} {source target : String} {moved : Entry} {old new : Place}

/-- What stood at one place stands at another one with its traits. Nothing but that has changed. -/
structure Relocated (d d' : Disk) (old new : Place) : Prop where
  tree : d.volume.Relocated d'.volume old new
  arrives : ∀ inner, d'.traits (inner ++ new) = d.traits (inner ++ old)
  gone : ∀ inner, d'.traits (inner ++ old) = {}
  kept : ∀ place, ¬ old <:+ place → ¬ new <:+ place → d'.traits place = d.traits place

/-- One name is gone and nothing else has changed. -/
structure Removed (d d' : Disk) (old : Place) : Prop where
  gone : d'.volume.entry? old = none
  kept : ∀ place, place ≠ old →
    d'.volume.entry? place = d.volume.entry? place ∧ d'.traits place = d.traits place

/-! ## Renaming -/

theorem mayReplace_of_mayMove (h : d.mayMove moved old new = .ok ()) :
    d.volume.mayReplace moved new = .ok () := by
  unfold mayMove at h
  split at h
  · cases h
  split at h
  · cases h
  · split at h
    · cases h
    · exact h
  · exact h

theorem mayReplace_of_mayMove_error {cause : Refusal} (h : d.mayMove moved old new = .error cause)
    (hcause : cause ≠ .denied) : d.volume.mayReplace moved new = .error cause := by
  unfold mayMove at h
  split at h
  · cases h
    exact absurd rfl hcause
  split at h
  · next hreplace =>
    cases h
    exact hreplace
  · split at h
    · cases h
      exact absurd rfl hcause
    · exact h
  · exact h

/-- A rename that is not denied does what it does on a volume, but for two names of one file. -/
theorem rename_error_of_ne_denied {cause : Refusal} (h : d.rename source target = .error cause)
    (hcause : cause ≠ .denied) : d.volume.rename source target = .error cause := by
  refine Volume.bind_eq_error.2 ?_
  obtain hplan | ⟨plan, hplan, h⟩ := Volume.bind_eq_error.1 h
  · exact .inl hplan
  refine .inr ⟨plan, hplan, ?_⟩
  unfold renameEntry at h
  unfold Volume.renameEntry
  split at h
  · next hinside =>
    cases h
    exact if_pos hinside
  next hinside =>
  split at h
  · next houtside =>
    cases h
    rw [if_neg hinside, if_pos houtside]
  next houtside =>
  split at h
  · cases h
  next hother =>
  rw [if_neg hinside, if_neg houtside, if_neg (ne_of_not_oneFile hother)]
  obtain hmove | ⟨_, -, hgraft⟩ := Volume.bind_eq_error.1 h
  · exact Volume.bind_eq_error.2 (.inl (mayReplace_of_mayMove_error hmove hcause))
  · cases hgraft

theorem relocated_graft (h : d.volume.Relocated (d.volume.graft old new) old new) :
    d.Relocated (d.graft old new) old new := by
  have hnew (inner : List String) : Place.below? new (inner ++ new) = some inner :=
    Place.below?_eq_some_iff.2 rfl
  refine ⟨h, fun inner => ?_, fun inner => ?_, fun place hold hnew => ?_⟩
  · simp only [graft, hnew]
  · have hbelow : Place.below? new (inner ++ old) = none :=
      Place.below?_eq_none_iff.2 (h.not_both (List.suffix_append inner old))
    simp only [graft, hbelow, Place.isSome_below?_iff.2 (List.suffix_append inner old), if_true]
  · simp only [graft, Place.below?_eq_none_iff.2 hnew, Place.isSome_below?_iff, hold, if_false]

theorem relocated_of_rename (hd : d.WellFormed) (h : d.rename source target = .ok d') :
    ∃ moved old new, d.volume.Renames source target moved old new ∧
      (d.oneFile old new = true ∧ d' = d ∨ d.oneFile old new = false ∧ d.Relocated d' old new) := by
  obtain ⟨⟨moved, old, new⟩, hplan, h⟩ := Volume.bind_eq_ok.1 h
  have hrenames := Volume.renames_of_planRename hplan
  refine ⟨moved, old, new, hrenames, ?_⟩
  unfold renameEntry at h
  simp only [Place.isSome_below?_iff] at h
  split at h
  · cases h
  split at h
  · cases h
  next hinside houtside =>
  split at h
  · next hsame =>
    cases h
    exact .inl ⟨hsame, rfl⟩
  · next hother =>
    obtain ⟨⟨⟩, hmove, h⟩ := Volume.bind_eq_ok.1 h
    cases h
    exact .inr ⟨Bool.eq_false_iff.2 hother, relocated_graft (hrenames.relocated hd.tree
      (ne_of_not_oneFile hother) hinside houtside (mayReplace_of_mayMove hmove))⟩

/-! ## Removing -/

theorem removed_erase (h : old ≠ []) : d.Removed (d.erase old) old := by
  refine ⟨?_, fun place hplace => ⟨?_, if_neg hplace⟩⟩
  · exact (Volume.entry?_remove h old).trans (if_pos rfl)
  · exact (Volume.entry?_remove h place).trans (if_neg hplace.symm)

theorem removed_of_unlink {directory : Place} {name : String}
    (hremovable : d.volume.Removable source directory name) (h : d.unlink source = .ok d') :
    d.Removed d' (name :: directory) := by
  unfold unlink at h
  rw [hremovable.unlinkable] at h
  change d.eraseName (name :: directory) = .ok d' at h
  unfold eraseName at h
  split at h
  · cases h
  · cases h
    exact removed_erase (List.cons_ne_nil _ _)

/-! ## Moving -/

/-- A file has been copied to where the target leads, and the name of the source is gone. -/
def CopiedOver (d d' : Disk) (source target : String) (old : Place) : Prop :=
  ∃ place content spot stored, d.volume.Copies source target place content spot ∧
    (d.volume.entry? spot.place = some .nullDevice ∧ stored = d ∨
      d.Writes stored spot.place (if d.oneFile place spot.place then .empty else content)) ∧
    stored.Removed d' old

theorem answer_move_eq_iff {result : Except FileError Unit} {detour : Option Refusal} :
    fileSystem.answer (.move source target) d = (⟨result, detour⟩, d') ∨
        fileSystem.answer (.rename source target) d = (⟨result, detour⟩, d') ↔
      host.relocate d source target = (result, detour, d') := by
  simp only [fileSystem, Host.fileSystem, Prod.ext_iff, Answer.mk.injEq, and_assoc, or_self]

theorem copiedOver_of_copy (hd : d.WellFormed) {bytes : Nat} {copied : Disk}
    (hcopy : d.copy source target = .done bytes copied) (hunlink : copied.unlink source = .ok d') :
    ∃ old new, d.volume.Names source old ∧ d.volume.Names target new ∧
      d.volume.entry? old ≠ none ∧ d.CopiedOver d' source target old := by
  obtain ⟨place, content, spot, hcopies, rfl⟩ := exists_copies_of_done hcopy
  have hopened := Volume.opened_of_writable hd.tree hcopies.writable
  obtain ⟨directory, name, hremovable⟩ :=
    Volume.exists_removable hd.tree hcopies.resolve hcopies.entry
  obtain ⟨directory', name', hslot', -, hname', -⟩ :=
    Volume.exists_slot_of_writable hd.tree hcopies.writable
  refine ⟨name :: directory, name' :: directory', ⟨hremovable.lookedUp.size_le, false,
    hremovable.slot⟩, ⟨hname'.size_le, false, hslot'⟩, ?_, place, content, spot, _, hcopies, ?_,
    removed_of_unlink (removable_store hd hopened hremovable) hunlink⟩
  · obtain ⟨entry, hentry, -⟩ := hremovable.entry
    rw [hentry]
    exact Option.some_ne_none entry
  · obtain hdevice | ⟨htakes, hstore⟩ := store_cases hopened
    · exact .inl hdevice
    · rw [hstore]
      exact .inr (writes_write hd htakes)

/-- A file that is copied though its rename was not denied is lost in the null device. -/
theorem removed_of_copy (hd : d.WellFormed)
    (hnull : d.volume.entry? ["null", "dev"] = some .nullDevice)
    (hsource : d.volume.MeetsNullOnly source) (htarget : d.volume.MeetsNullOnly target)
    {cause : Refusal} {bytes : Nat} {copied : Disk}
    (hrename : d.rename source target = .error cause) (hcause : cause ≠ .denied)
    (hcopy : d.copy source target = .done bytes copied) (hunlink : copied.unlink source = .ok d') :
    ∃ old, d.volume.Names source old ∧ d.volume.Names target ["null", "dev"] ∧
      d.volume.entry? old ≠ none ∧ d.oneFile old ["null", "dev"] = false ∧ d.Removed d' old := by
  obtain ⟨place, content, spot, hcopies, rfl⟩ := exists_copies_of_done hcopy
  obtain ⟨rfl, hnames, directory, name, hremovable, hne⟩ := Volume.spot_of_copies hd.tree hnull
    hsource htarget (rename_error_of_ne_denied hrename hcause) hcopies
  obtain ⟨entry, hentry, -⟩ := hremovable.entry
  rw [store, Spot.place, hnull] at hunlink
  refine ⟨name :: directory, ⟨hremovable.lookedUp.size_le, false, hremovable.slot⟩, hnames, ?_, ?_,
    removed_of_unlink hremovable hunlink⟩
  · rw [hentry]
    exact Option.some_ne_none entry
  · refine Bool.eq_false_iff.2 fun hsame => ?_
    obtain ⟨_, hfile⟩ := hd.exists_file hsame hne
    cases hnull.symm.trans hfile

/-- A move leaves everything as it is when both paths name one file. An entry that is moved to the
null device is gone and nothing else has changed. Any other entry stands at the target as it stood
at the source, and nothing else has changed. Only where the rename was denied, a file has been
copied instead. -/
theorem answer_move (hd : d.WellFormed)
    (hnull : d.volume.entry? ["null", "dev"] = some .nullDevice)
    (hsource : d.volume.MeetsNullOnly source) (htarget : d.volume.MeetsNullOnly target)
    {detour : Option Refusal}
    (h : fileSystem.answer (.move source target) d = (⟨.ok (), detour⟩, d') ∨
      fileSystem.answer (.rename source target) d = (⟨.ok (), detour⟩, d')) :
    ∃ old new, d.volume.Names source old ∧ d.volume.Names target new ∧
      d.volume.entry? old ≠ none ∧
      (detour ≠ some .denied →
        (d.oneFile old new = true → d' = d) ∧
        (d.oneFile old new = false → new = ["null", "dev"] → d.Removed d' old) ∧
        (d.oneFile old new = false → new ≠ ["null", "dev"] → d.Relocated d' old new)) ∧
      (detour = some .denied → d.CopiedOver d' source target old) := by
  obtain ⟨rfl, hrename⟩ | ⟨cause, bytes, copied, rfl, hrename, hcopy, hunlink⟩ :=
    Host.relocate_eq_ok (answer_move_eq_iff.1 h)
  · obtain ⟨moved, old, new, hrenames, hmoved⟩ := relocated_of_rename hd hrename
    refine ⟨old, new, hrenames.source, hrenames.target, ?_, fun _ => ?_, fun h => by cases h⟩
    · rw [hrenames.entry]
      exact Option.some_ne_none moved
    rcases hmoved with ⟨hsame, rfl⟩ | ⟨hother, hrelocated⟩
    · simp only [hsame, Bool.true_eq_false, false_implies, and_true, implies_true]
    · refine ⟨fun hsame => ?_, fun _ hdev => ?_, fun _ _ => hrelocated⟩
      · cases hother.symm.trans hsame
      · subst hdev
        rw [hsource old hrenames.source hrenames.device] at hother
        exact absurd rfl (ne_of_not_oneFile (Bool.eq_false_iff.1 hother))
  · by_cases hcause : cause = .denied
    · obtain ⟨old, new, hold, hnew, hentry, hcopied⟩ := copiedOver_of_copy hd hcopy hunlink
      exact ⟨old, new, hold, hnew, hentry, fun h => absurd (congrArg some hcause) h,
        fun _ => hcopied⟩
    · obtain ⟨old, hold, hnew, hentry, hother, hremoved⟩ :=
        removed_of_copy hd hnull hsource htarget hrename hcause hcopy hunlink
      refine ⟨old, _, hold, hnew, hentry, fun _ => ⟨fun hsame => ?_, fun _ _ => hremoved,
        fun _ hne => absurd rfl hne⟩, fun h => absurd (Option.some.inj h) hcause⟩
      cases hother.symm.trans hsame

def twins : Disk where
  volume := Volume.single.put ["b", "home"] (.file Volume.digits)
  traits place :=
    if place = ["a", "home"] ∨ place = ["b", "home"] then { number := some 0 } else {}

theorem traits_twins (place : Place) :
    twins.traits place =
      if place = ["a", "home"] ∨ place = ["b", "home"] then { number := some 0 } else {} :=
  rfl

theorem entry?_twins : twins.volume.entry? ["a", "home"] = some (.file Volume.digits) ∧
    twins.volume.entry? ["b", "home"] = some (.file Volume.digits) := by
  constructor <;> cbv

theorem number_twins {place : Place} (h : (twins.traits place).number ≠ none) :
    twins.volume.entry? place = some (.file Volume.digits) ∧
      twins.traits place = { number := some 0 } := by
  rw [traits_twins] at h ⊢
  by_cases hname : place = ["a", "home"] ∨ place = ["b", "home"]
  · rw [if_pos hname]
    refine ⟨?_, rfl⟩
    obtain rfl | rfl := hname
    · exact entry?_twins.1
    · exact entry?_twins.2
  · rw [if_neg hname] at h
    exact absurd rfl h

theorem wellFormed_twins : twins.WellFormed := by
  refine ⟨?_, fun place hfree => ?_, fun place h => ⟨_, (number_twins h).1⟩,
    fun place other h => ?_⟩
  · refine Volume.wellFormed_single.put rfl (by decide) ?_ _
    cbv
    exact fun h => by cases h
  · rw [traits_twins, if_neg]
    rintro (rfl | rfl)
    · cases hfree.symm.trans entry?_twins.1
    · cases hfree.symm.trans entry?_twins.2
  · obtain rfl | ⟨hnumber, hsame⟩ := oneFile_iff.1 h
    · exact ⟨rfl, rfl⟩
    · obtain ⟨hentry, htraits⟩ := number_twins hnumber
      obtain ⟨hentry', htraits'⟩ := number_twins (hsame ▸ hnumber)
      rw [hentry, hentry', htraits, htraits']
      exact ⟨rfl, rfl⟩

theorem slot_twins : twins.volume.slot "a" = .ok ⟨["home"], .name "a", false⟩ := by cbv

/-- A name that is moved takes the number of its file along. -/
theorem answer_move_name :
    twins.WellFormed ∧ ∃ d', fileSystem.answer (.move "a" "c") twins = (⟨.ok (), none⟩, d') ∧
      twins.Relocated d' ["a", "home"] ["c", "home"] := by
  have hnew : twins.volume.slot "c" = .ok ⟨["home"], .name "c", false⟩ := by cbv
  have hnull : twins.volume.entry? ["null", "dev"] = some .nullDevice := by cbv
  have hoff {spelling name : String}
      (hslot : twins.volume.slot spelling = .ok ⟨["home"], .name name, false⟩) :
      twins.volume.MeetsNullOnly spelling := fun place hnames hon => by
    rw [hnames.eq_of_slot hslot] at hon
    cases hon
  have hresolves : host.resolves twins "a" = true := by cbv
  have hrename : host.rename twins "a" "c" = .ok (twins.graft ["a", "home"] ["c", "home"]) := by
    cbv
  have hmove : host.relocate twins "a" "c" =
      (.ok (), none, twins.graft ["a", "home"] ["c", "home"]) := by
    rw [Host.relocate, if_pos hresolves, hrename]
  have hanswer : fileSystem.answer (.move "a" "c") twins =
      (⟨.ok (), none⟩, twins.graft ["a", "home"] ["c", "home"]) := by
    simp only [fileSystem, Host.fileSystem, hmove]
  obtain ⟨old, new, hnames, hnames', -, hmoved, -⟩ :=
    answer_move wellFormed_twins hnull (hoff slot_twins) (hoff hnew) (.inl hanswer)
  rw [hnames.eq_of_slot slot_twins, hnames'.eq_of_slot hnew] at hmoved
  have hother : twins.oneFile ["a", "home"] ["c", "home"] = false := by cbv
  exact ⟨wellFormed_twins, _, hanswer,
    (hmoved fun h => by cases h).2.2 hother (by decide)⟩

/-- What was moved is still where it was. -/
theorem move_keeps_source :
    twins.WellFormed ∧
      twins.volume.Names "a" ["a", "home"] ∧ twins.volume.Names "b" ["b", "home"] ∧
      (fileSystem.answer (.move "a" "b") twins).1.result = .ok () ∧
      (fileSystem.answer (.move "a" "b") twins).2.volume.entry? ["a", "home"] =
        some (.file Volume.digits) := by
  have hnew : twins.volume.slot "b" = .ok ⟨["home"], .name "b", false⟩ := by cbv
  have hsize : (1 : Nat) ≤ Path.maxNameBytes := by decide
  refine ⟨wellFormed_twins, ⟨hsize, false, slot_twins⟩, ⟨hsize, false, hnew⟩, ?_, ?_⟩
  · cbv
  · cbv

end FileChores.Disk
