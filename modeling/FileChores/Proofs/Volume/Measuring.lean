import FileChores.Proofs.Volume.Refusing
import FileChores.Proofs.Volume.Slots
import FileChores.Proofs.Volume.Within

/-!
# What the space in use adds up

The space in use is the sum of the lengths of the regular files that are reached through directories
alone, each counted once. An entry is asked for by a path that is joined from the names on the way,
so the sum is told just when all these paths stay within the limit.
-/

namespace FileChores.Volume

variable {v : Volume}

/-! ## What is added up -/

def lengthAt (v : Volume) (place : Place) : Nat :=
  ((v.fileAt? place).map ByteArray.size).getD 0

open Classical in
noncomputable def filesWithin (v : Volume) (root : Place) : Finset Place :=
  (v.entries.toList.map Prod.fst).toFinset.filter fun place =>
    v.Within root place ∧ ∃ content, v.entry? place = some (.file content)

theorem mem_filesWithin_iff {root place : Place} : place ∈ v.filesWithin root ↔
    v.Within root place ∧ ∃ content, v.entry? place = some (.file content) := by
  classical
  rw [filesWithin, Finset.mem_filter, List.mem_toFinset, and_iff_right_iff_imp]
  rintro ⟨-, content, hcontent⟩
  rcases place with _ | ⟨name, parent⟩
  · cases hcontent
  · exact List.mem_map.2 ⟨_, mem_toList_iff.2 hcontent, rfl⟩

theorem Within.iff_of_not_directory {root place : Place} (h : v.entry? root ≠ some .directory) :
    v.Within root place ↔ place = root := by
  constructor
  · intro hwithin
    rcases hwithin.cases_entry with heq | ⟨hroot, -⟩
    · exact heq
    · exact absurd hroot h
  · rintro rfl
    exact .root

theorem filesWithin_directory {root : Place} (h : v.entry? root = some .directory) :
    v.filesWithin root =
      (v.names root).toFinset.biUnion fun name => v.filesWithin (name :: root) := by
  ext place
  simp only [Finset.mem_biUnion, List.mem_toFinset, mem_names_iff, mem_filesWithin_iff]
  constructor
  · rintro ⟨hwithin, content, hcontent⟩
    rcases hwithin.cases_entry with rfl | ⟨-, name, hname, hwithin⟩
    · cases h.symm.trans hcontent
    · exact ⟨name, hname, hwithin, content, hcontent⟩
  · rintro ⟨name, hname, hwithin, hfile⟩
    exact ⟨hwithin.of_entry h hname, hfile⟩

theorem disjoint_filesWithin {root : Place} {name other : String} (h : name ≠ other) :
    Disjoint (v.filesWithin (name :: root)) (v.filesWithin (other :: root)) := by
  rw [Finset.disjoint_left]
  intro place hplace hother
  have hname := (mem_filesWithin_iff.1 hplace).1.isSuffix
  have hother := (mem_filesWithin_iff.1 hother).1.isSuffix
  have heq : name :: root = other :: root :=
    (List.suffix_of_suffix_length_le hname hother (Nat.le_refl _)).eq_of_length rfl
  exact h (List.cons.inj heq).1

noncomputable def lengthWithin (v : Volume) (root : Place) : Nat :=
  ∑ place ∈ v.filesWithin root, v.lengthAt place

theorem lengthWithin_directory {root : Place} (h : v.entry? root = some .directory) :
    v.lengthWithin root =
      ((v.names root).map fun name => v.lengthWithin (name :: root)).sum := by
  unfold lengthWithin
  rw [filesWithin_directory h, Finset.sum_biUnion, List.sum_toFinset _ (nodup_names root)]
  intro name _ other _ hne
  exact disjoint_filesWithin hne

theorem lengthWithin_entry {root : Place} {entry : Entry} (h : v.entry? root = some entry)
    (hdirectory : entry ≠ .directory) : v.lengthWithin root = entry.size := by
  have hwithin {place : Place} : v.Within root place ↔ place = root :=
    Within.iff_of_not_directory fun hroot => hdirectory (Option.some.inj (h.symm.trans hroot))
  unfold lengthWithin
  cases entry with
  | file content =>
      have hfiles : v.filesWithin root = {root} := by
        ext place
        rw [mem_filesWithin_iff, hwithin, Finset.mem_singleton, and_iff_left_iff_imp]
        rintro rfl
        exact ⟨content, h⟩
      rw [hfiles, Finset.sum_singleton, lengthAt, fileAt?_eq_some_iff.2 h]
      rfl
  | directory => exact absurd rfl hdirectory
  | link | nullDevice =>
      refine Finset.sum_eq_zero fun place hplace => ?_
      obtain ⟨hplace, content, hcontent⟩ := mem_filesWithin_iff.1 hplace
      rw [hwithin.1 hplace, h] at hcontent
      cases hcontent

/-! ## The paths on the way -/

/-- The path by which an entry is asked for that some names lead to from where a path leads, the
last name first. -/
def joined (spelling : String) : List String → String
  | [] => spelling
  | name :: inner => Path.join (joined spelling inner) name

theorem joined_join (spelling name : String) (inner : List String) :
    joined (Path.join spelling name) inner = joined spelling (inner ++ [name]) := by
  induction inner with
  | nil => rfl
  | cons last inner ih => rw [joined, ih]; rfl

/-- Every path by which an entry below is asked for stays within the limit. -/
def Fits (v : Volume) (spelling : String) (root : Place) : Prop :=
  ∀ inner, v.Within root (inner ++ root) → (joined spelling inner).utf8ByteSize < Path.maxBytes

theorem fits_entry_iff {spelling : String} {root : Place} (h : v.entry? root ≠ some .directory) :
    v.Fits spelling root ↔ spelling.utf8ByteSize < Path.maxBytes := by
  constructor
  · intro hfits
    exact hfits [] .root
  · intro hsize inner hinner
    have hself := (Within.iff_of_not_directory h).1 hinner
    rwa [List.append_left_eq_self.1 hself]

theorem fits_directory_iff {spelling : String} {root : Place}
    (h : v.entry? root = some .directory) :
    v.Fits spelling root ↔ spelling.utf8ByteSize < Path.maxBytes ∧
      ∀ name ∈ v.names root, v.Fits (Path.join spelling name) (name :: root) := by
  constructor
  · intro hfits
    refine ⟨hfits [] .root, fun name hname inner hinner => ?_⟩
    rw [joined_join]
    refine hfits (inner ++ [name]) ?_
    rw [List.append_assoc]
    exact hinner.of_entry h (mem_names_iff.1 hname)
  · rintro ⟨hsize, hnames⟩ inner hinner
    rcases hinner.cases_entry with hself | ⟨-, name, hname, hwithin⟩
    · rwa [List.append_left_eq_self.1 hself]
    · obtain ⟨rest, hrest⟩ := hwithin.isSuffix
      obtain rfl : rest ++ [name] = inner :=
        List.append_cancel_right ((List.append_assoc rest [name] root).trans hrest)
      rw [← joined_join]
      refine hnames name (mem_names_iff.2 hname) rest ?_
      rwa [hrest]

theorem fits_flat_iff {spelling : String} {root : Place} (h : v.entry? root = some .directory)
    (hflat : ∀ name ∈ v.names root, v.entry? (name :: root) ≠ some .directory) :
    v.Fits spelling root ↔ spelling.utf8ByteSize < Path.maxBytes ∧
      ∀ name ∈ v.names root, (Path.join spelling name).utf8ByteSize < Path.maxBytes := by
  rw [fits_directory_iff h]
  refine and_congr_right fun _ => forall₂_congr fun name hname => ?_
  exact fits_entry_iff (hflat name hname)

theorem fits_of_names {spelling name : String} {root : Place}
    (h : v.entry? root = some .directory) (hnames : v.names root = [name])
    (hentry : v.entry? (name :: root) ≠ some .directory)
    (hsize : spelling.utf8ByteSize < Path.maxBytes)
    (hjoin : (Path.join spelling name).utf8ByteSize < Path.maxBytes) : v.Fits spelling root := by
  rw [fits_flat_iff h, hnames]
  · exact ⟨hsize, List.forall_mem_singleton.2 hjoin⟩
  · rw [hnames]
    exact List.forall_mem_singleton.2 hentry

/-! ## Adding up -/

section

variable {α : Type} {f : α → Except Refusal Nat} {g : α → Nat} {l : List α}

theorem foldlM_add_ok (h : ∀ x ∈ l, f x = .ok (g x)) (start : Nat) :
    l.foldlM (fun total x => do return total + (← f x)) start = .ok (start + (l.map g).sum) := by
  induction l generalizing start with
  | nil => rfl
  | cons first rest ih =>
      rw [List.foldlM_cons, h first List.mem_cons_self]
      refine (ih (fun x hx => h x (List.mem_cons_of_mem _ hx)) _).trans ?_
      rw [List.map_cons, List.sum_cons, Nat.add_assoc]

/-- When everything fails in one way or not at all, the sum fails in that way if anything does. -/
theorem foldlM_add_error {cause : Refusal} (h : ∀ x ∈ l, f x = .ok (g x) ∨ f x = .error cause)
    (hone : ∃ x ∈ l, f x = .error cause) (start : Nat) :
    l.foldlM (fun total x => do return total + (← f x)) start = .error cause := by
  induction l generalizing start with
  | nil =>
      obtain ⟨x, hx, -⟩ := hone
      cases hx
  | cons first rest ih =>
      rw [List.foldlM_cons]
      rcases h first List.mem_cons_self with hfirst | hfirst
      · rw [hfirst]
        refine ih (fun x hx => h x (List.mem_cons_of_mem _ hx)) ?_ _
        obtain ⟨x, hx, hcause⟩ := hone
        rcases List.mem_cons.1 hx with rfl | hx
        · cases hfirst.symm.trans hcause
        · exact ⟨x, hx, hcause⟩
      · rw [hfirst]
        rfl

end

/-- The lengths are added up, or a path on the way is too long. -/
structure Measures (v : Volume) (spelling : String) (root : Place) (total : Except Refusal Nat) :
    Prop where
  ok : v.Fits spelling root → total = .ok (v.lengthWithin root)
  error : ¬ v.Fits spelling root → total = .error .nameTooLong

theorem Measures.ok_or_error {spelling : String} {root : Place} {total : Except Refusal Nat}
    (h : v.Measures spelling root total) :
    total = .ok (v.lengthWithin root) ∨ total = .error .nameTooLong :=
  (em (v.Fits spelling root)).imp h.ok h.error

theorem Measures.directory {spelling : String} {root : Place}
    {total : String → Except Refusal Nat} (hsize : spelling.utf8ByteSize < Path.maxBytes)
    (hdirectory : v.entry? root = some .directory)
    (h : ∀ name ∈ v.names root,
      v.Measures (Path.join spelling name) (name :: root) (total name)) :
    v.Measures spelling root ((v.names root).attach.foldlM
      (fun sum name => do return sum + (← total name.1)) 0) := by
  constructor
  · intro hfits
    have hnames := ((fits_directory_iff hdirectory).1 hfits).2
    rw [foldlM_add_ok fun name _ => (h name.1 name.2).ok (hnames name.1 name.2), Nat.zero_add,
      lengthWithin_directory hdirectory,
      List.attach_map_val (f := fun name => v.lengthWithin (name :: root))]
  · intro hfits
    have hone : ∃ name ∈ v.names root, ¬ v.Fits (Path.join spelling name) (name :: root) := by
      by_contra hnone
      refine hfits ((fits_directory_iff hdirectory).2 ⟨hsize, fun name hname => ?_⟩)
      exact not_not.1 fun hlong => hnone ⟨name, hname, hlong⟩
    obtain ⟨name, hname, hlong⟩ := hone
    refine foldlM_add_error (fun other _ => (h other.1 other.2).ok_or_error) ?_ 0
    exact ⟨⟨name, hname⟩, List.mem_attach _ _, (h name hname).error hlong⟩

theorem spaceFrom_measures (spelling : String) (root : Place) (hroot : v.entry? root ≠ none) :
    v.Measures spelling root (v.spaceFrom spelling root) := by
  fun_induction spaceFrom v spelling root with
  | case1 spelling root hsize =>
      refine ⟨fun hfits => ?_, fun _ => rfl⟩
      exact absurd (hfits [] .root) (Nat.not_lt.2 hsize)
  | case2 spelling root _ hentry => exact absurd hentry hroot
  | case3 spelling root hsize hdirectory ih =>
      exact .directory (Nat.lt_of_not_le hsize) hdirectory fun name hname =>
        ih name hname (mem_names_iff.1 hname)
  | case4 spelling root hsize entry hdirectory hentry =>
      have hother : v.entry? root ≠ some .directory := fun h =>
        hdirectory (Option.some.inj (hentry.symm.trans h))
      rw [← lengthWithin_entry hentry hdirectory]
      refine ⟨fun _ => rfl, fun hfits => absurd ?_ hfits⟩
      exact (fits_entry_iff hother).2 (Nat.lt_of_not_le hsize)

theorem answer_space_eq {path : String} {place : Place}
    (hplace : v.resolve path = .ok place) (hentry : v.entryAt path = .ok place) :
    fileSystem.answer (.space path) v =
      (⟨(v.spaceFrom path place).mapError (.refused path), none⟩, v) := by
  have hresolves : v.resolves path = true := resolves_iff.2 ⟨place, hplace⟩
  simp only [answer_space_def, checkSpace_eq, hresolves, space, hentry, bind, Except.bind,
    if_true]

/-- The space in use by what a path leads to that names no link: every regular file that is reached
through directories alone counts once, with its length, and nothing else does. It is told whenever
the paths of all entries on the way stay within the limit. -/
theorem answer_space (hv : v.WellFormed) {path : String} {place : Place}
    (hplace : v.resolve path = .ok place)
    (hlink : ∀ found target, v.entryAt path = .ok found → v.entry? found ≠ some (.link target)) :
    ∃ files : Finset Place,
      (∀ file, file ∈ files ↔
        v.Within place file ∧ ∃ content, v.entry? file = some (.file content)) ∧
      (v.Fits path place →
        fileSystem.answer (.space path) v = (⟨.ok (∑ file ∈ files, v.lengthAt file), none⟩, v)) ∧
      (¬ v.Fits path place →
        fileSystem.answer (.space path) v =
          (⟨.error (.refused path .nameTooLong), none⟩, v)) := by
  have hentry := entryAt_of_resolve hplace hlink
  have hmeasures := spaceFrom_measures path place (entry?_ne_none_of_resolve hv hplace)
  rw [answer_space_eq hplace hentry]
  refine ⟨v.filesWithin place, fun file => mem_filesWithin_iff, fun hfits => ?_, fun hfits => ?_⟩
  · rw [hmeasures.ok hfits]
    rfl
  · rw [hmeasures.error hfits]
    rfl

theorem names_looped : looped.names ["home"] = ["a", "l"] := by cbv

theorem answer_space_looped :
    looped.WellFormed ∧ ∃ files : Finset Place,
      (∀ file, file ∈ files ↔
        looped.Within ["home"] file ∧ ∃ content, looped.entry? file = some (.file content)) ∧
      fileSystem.answer (.space ".") looped =
        (⟨.ok (∑ file ∈ files, looped.lengthAt file), none⟩, looped) := by
  have hplace : looped.resolve "." = .ok ["home"] := by cbv
  have hentry : looped.entryAt "." = .ok ["home"] := by cbv
  have hdirectory : looped.entry? ["home"] = some .directory := by cbv
  have hfits : looped.Fits "." ["home"] := by
    have hflat : ∀ name ∈ looped.names ["home"],
        looped.entry? [name, "home"] ≠ some .directory := by
      rw [names_looped]
      refine List.forall_mem_cons.2 ⟨?_, List.forall_mem_singleton.2 ?_⟩
      all_goals
        cbv
        exact fun h => by cases h
    rw [fits_flat_iff hdirectory hflat, names_looped]
    exact ⟨by cbv, List.forall_mem_cons.2 ⟨by cbv, List.forall_mem_singleton.2 (by cbv)⟩⟩
  have hlink (found : Place) (target : String) (hfound : looped.entryAt "." = .ok found) :
      looped.entry? found ≠ some (.link target) := by
    cases hentry.symm.trans hfound
    rw [hdirectory]
    exact fun h => by cases h
  obtain ⟨files, hfiles, hok, -⟩ := answer_space wellFormed_looped hplace hlink
  exact ⟨wellFormed_looped, files, hfiles, hok hfits⟩

/-! ## A path at the limit -/

def dotted (slashes : Nat) : String :=
  .ofList ('.' :: List.replicate slashes '/')

theorem pieces_slashes (slashes : Nat) :
    Path.pieces (List.replicate slashes '/') = List.replicate (slashes + 1) [] := by
  induction slashes with
  | zero => rfl
  | succ slashes ih => rw [List.replicate_succ, Path.pieces, ih]; rfl

theorem pieces_dotted (slashes : Nat) :
    Path.pieces ('.' :: List.replicate slashes '/') = ['.'] :: List.replicate slashes [] := by
  rw [Path.pieces, pieces_slashes, List.replicate_succ]
  exact fun h => by cases h

theorem getLast?_dotted {slashes : Nat} (hslashes : 0 < slashes) :
    (dotted slashes).toList.getLast? = some '/' := by
  obtain ⟨fewer, rfl⟩ := Nat.exists_eq_add_of_lt hslashes
  rw [dotted, String.toList_ofList, Nat.zero_add, List.replicate_succ', ← List.cons_append,
    List.getLast?_concat]

theorem split_dotted {slashes : Nat} (hslashes : 0 < slashes) :
    Path.split (dotted slashes) = ⟨false, ["."], true⟩ := by
  have hnames : (List.replicate slashes ([] : List Char)).filter (!·.isEmpty) = [] := by
    simp
  unfold Path.split
  rw [getLast?_dotted hslashes, dotted, String.toList_ofList, pieces_dotted,
    List.filter_cons_of_pos rfl, hnames]
  rfl

theorem utf8ByteSize_dotted (slashes : Nat) :
    (dotted slashes).utf8ByteSize = slashes + 1 := by
  have hsize : String.utf8Len (List.replicate slashes '/') = slashes := by
    induction slashes with
    | zero => rfl
    | succ slashes ih => rw [List.replicate_succ, String.utf8Len_cons, ih]; rfl
  rw [dotted, String.utf8ByteSize_ofList, String.utf8Len_cons, hsize]
  rfl

theorem utf8ByteSize_join_dotted {slashes : Nat} (hslashes : 0 < slashes) (name : String) :
    (Path.join (dotted slashes) name).utf8ByteSize = slashes + 1 + name.utf8ByteSize := by
  rw [Path.join, if_pos (getLast?_dotted hslashes), String.utf8ByteSize_append,
    utf8ByteSize_dotted]

section

variable {slashes : Nat} (hslashes : 0 < slashes) (hsize : slashes + 1 < Path.maxBytes)
  (hhome : v.entry? v.home = some .directory)

include hslashes hsize

theorem ofString_dotted : Path.ofString (dotted slashes) = .ok ⟨false, ["."], true⟩ := by
  have hnul : (dotted slashes).toList.contains '\x00' = false := by
    simp [dotted]
  have hempty : (dotted slashes).isEmpty = false := by
    rw [String.isEmpty_eq_utf8ByteSize_beq_zero, utf8ByteSize_dotted]
    rfl
  unfold Path.ofString
  rw [hnul, hempty, utf8ByteSize_dotted, split_dotted hslashes]
  exact if_neg (Nat.not_le.2 hsize)

include hhome

theorem resolve_dotted : v.resolve (dotted slashes) = .ok v.home := by
  refine resolve_eq_ok_iff.2 ⟨_, ofString_dotted hslashes hsize, ?_⟩
  exact .stay hhome (.stay hhome (.arrived _ _))

theorem entryAt_dotted : v.entryAt (dotted slashes) = .ok v.home := by
  have hslot : v.slot (dotted slashes) = .ok ⟨v.home, .ofName ".", true⟩ :=
    slot_of_leads (ofString_dotted hslashes hsize) (List.nil_append ["."]).symm (.arrived _ _)
      hhome
  unfold entryAt
  rw [hslot]
  exact resolve_dotted hslashes hsize hhome

theorem answer_space_dotted {name : String} (hentry : v.entry? (name :: v.home) ≠ none)
    (hlong : Path.maxBytes ≤ slashes + 1 + name.utf8ByteSize) :
    fileSystem.answer (.space (dotted slashes)) v =
      (⟨.error (.refused (dotted slashes) .nameTooLong), none⟩, v) := by
  have hplace := resolve_dotted hslashes hsize hhome
  have hroot : v.entry? v.home ≠ none := by
    rw [hhome]
    exact Option.some_ne_none _
  have hfits : ¬ v.Fits (dotted slashes) v.home := by
    intro hfits
    have hname := hfits [name] (.entry .root hhome hentry)
    rw [joined, joined, utf8ByteSize_join_dotted hslashes] at hname
    exact absurd hname (Nat.not_lt.2 hlong)
  rw [answer_space_eq hplace (entryAt_dotted hslashes hsize hhome),
    (spaceFrom_measures (dotted slashes) v.home hroot).error hfits]
  rfl

end

/-- The path of the only file there is reaches the limit, and its five bytes are not told. -/
theorem answer_space_overlong :
    single.WellFormed ∧ single.resolve (dotted 4094) = .ok ["home"] ∧
      single.entryAt (dotted 4094) = .ok ["home"] ∧
      single.entry? ["home"] = some .directory ∧
      fileSystem.answer (.space (dotted 4094)) single =
        (⟨.error (.refused (dotted 4094) .nameTooLong), none⟩, single) := by
  have hpos : 0 < 4094 := by decide
  have hsize : 4094 + 1 < Path.maxBytes := by decide
  have hfile : single.entry? ("a" :: single.home) ≠ none := fun h => by
    cases entry?_single.symm.trans h
  exact ⟨wellFormed_single, resolve_dotted hpos hsize rfl, entryAt_dotted hpos hsize rfl, rfl,
    answer_space_dotted hpos hsize rfl hfile (by decide)⟩

end FileChores.Volume
