import FileChores.Proofs.Run.Calling
import FileChores.Proofs.Volume.Children

/-!
# Emptying a directory

Of the names that a directory lists, those can be deleted that stand for files, devices, empty
directories, and links to something that is no directory. What is deleted is listed no more, and the
others are. When every name could be deleted even as the last one left, a script that deletes them
one after the other empties the directory. A link that leads nowhere, or to a directory, is listed
and cannot be deleted.
-/

namespace FileChores

/-! ## A statement that deletes -/

def Statement.Deletes (path : String) (statement : Statement) : Prop :=
  ∃ pos pos', statement = .call .deleteFile [.text path pos'] pos

namespace Run

theorem result_execute_deletes {σ : Type} (s : Setting σ) {path : String} {statement : Statement}
    (h : statement.Deletes path) (m : Machine σ) :
    ∃ m', result (execute s statement) m = (.ok (), m') ∧
      m'.files = (s.files.answer (.delete path) m.files).2 := by
  obtain ⟨pos, pos', rfl⟩ := h
  have henter : result (enter pos) m =
      (.ok (), { m with pos := pos, trace := m.trace.push (.statement pos) }) := rfl
  have hask : Action.ofCall? .deleteFile [.text path] = some (.ask (.delete path)) := rfl
  obtain ⟨events, -, hcall⟩ :=
    result_call_ask s hask pos { m with pos := pos, trace := m.trace.push (.statement pos) }
  rw [execute, result_bind_ok henter, evaluateAll, evaluate, evaluateAll]
  simp only [pure_bind]
  rw [result_bind_ok hcall]
  exact ⟨_, rfl, rfl⟩

end Run

namespace Volume

variable {v : Volume} {d name spelling : String} {place : Place}

/-! ## Deleting one entry -/

theorem delete_of_removable {directory found : Place} (h : v.Removable spelling directory name)
    (hfound : v.resolve spelling = .ok found) (hdirectory : v.entry? found ≠ some .directory) :
    v.delete spelling = (.ok (), v.remove (name :: directory)) := by
  rw [delete_eq, hfound]
  dsimp only
  rw [if_neg (mt isDirectory_iff.1 hdirectory), h.unlink]
  rfl

theorem delete_of_empty {own : Place} (h : v.Names spelling own)
    (hown : v.resolve spelling = .ok own) (hdirectory : v.entry? own = some .directory)
    (hnames : v.names own = []) : v.delete spelling = (.ok (), v.remove own) := by
  rw [delete_eq, hown]
  dsimp only
  rw [if_pos (isDirectory_iff.2 hdirectory), Host.settle_eq_ok_iff, removeDirectory_eq_ok_iff]
  exact ⟨own, h, hdirectory, hnames, rfl⟩

/-- What a request to delete wants of an entry: a path and a name that are not too long, nothing in
it when it is a directory, and something at its end that is no directory when it is a link. -/
structure Yields (v : Volume) (d : String) (place : Place) (name : String) : Prop where
  size_path : (Path.entry d name).utf8ByteSize < Path.maxBytes
  size_name : name.utf8ByteSize ≤ Path.maxNameBytes
  empty : v.entry? (name :: place) = some .directory → v.names (name :: place) = []
  followed : ∀ target, v.entry? (name :: place) = some (.link target) →
    ∃ found entry, v.resolve (Path.entry d name) = .ok found ∧ v.entry? found = some entry ∧
      entry ≠ .directory

theorem LooksUp.exists_end (h : v.LooksUp d place name) (hyields : v.Yields d place name)
    {entry : Entry} (hentry : v.entry? (name :: place) = some entry) (hne : entry ≠ .directory) :
    ∃ found, v.resolve (Path.entry d name) = .ok found ∧ v.entry? found ≠ some .directory := by
  by_cases hlink : ∃ target, entry = .link target
  · obtain ⟨target, rfl⟩ := hlink
    obtain ⟨found, last, hfound, hlast, hdirectory⟩ := hyields.followed target hentry
    exact ⟨found, hfound, by rwa [hlast, Ne, Option.some.injEq]⟩
  · have hself := h.resolve_entry hentry fun target heq => hlink ⟨target, heq⟩
    exact ⟨name :: place, hself, by rwa [hentry, Ne, Option.some.injEq]⟩

theorem LooksUp.delete (h : v.LooksUp d place name) (hyields : v.Yields d place name)
    (hentry : v.entry? (name :: place) ≠ none) :
    v.delete (Path.entry d name) = (.ok (), v.remove (name :: place)) := by
  obtain ⟨entry, hentry⟩ := Option.ne_none_iff_exists'.1 hentry
  by_cases hdirectory : entry = .directory
  · subst hdirectory
    have hresolve := h.resolve_entry hentry (fun _ h => by cases h)
    exact delete_of_empty h.names hresolve hentry (hyields.empty hentry)
  · obtain ⟨found, hfound, hend⟩ := h.exists_end hyields hentry hdirectory
    exact delete_of_removable (h.removable hentry hdirectory) hfound hend

/-- A link to a directory is taken for the directory, and is none. -/
theorem LooksUp.delete_link (h : v.LooksUp d place name) {target : String}
    (hlink : v.entry? (name :: place) = some (.link target)) {found : Place}
    (hfound : v.resolve (Path.entry d name) = .ok found)
    (hdirectory : v.entry? found = some .directory) :
    v.delete (Path.entry d name) = (.error (.refused (Path.entry d name) .notDirectory), v) := by
  obtain ⟨-, slash, hslot⟩ := h.names
  have hremove : v.removeDirectory (Path.entry d name) = .error .notDirectory := by
    unfold removeDirectory vacated
    rw [hslot]
    simp [bind, Except.bind, child_eq_ok_iff.2 ⟨h.size_name, hlink⟩]
  rw [delete_eq, hfound]
  dsimp only
  rw [if_pos (isDirectory_iff.2 hdirectory), hremove]
  rfl

theorem lookedUp_of_delete (hv : v.WellFormed) {v' : Volume} (hd : v.resolve d = .ok place)
    (hplace : v.entry? place = some .directory) (hname : name ∈ v.names place)
    (h : v.delete (Path.entry d name) = (.ok (), v')) : v.LooksUp d place name := by
  obtain ⟨own, hown, -⟩ := (delete_eq_ok_iff hv).1 h
  rcases own with _ | ⟨name', directory⟩
  · exact absurd hown.names id
  have hproper := hv.name name place (mem_names_iff.1 hname)
  obtain ⟨path', front, hpath', hnames, hname', -⟩ := hown.names.exists_leads
  obtain ⟨path, hpath, -⟩ := resolve_eq_ok_iff.1 hd
  have hsize := (Path.ofString_eq_ok_iff.1 hpath').2.2.1
  have hentry := Path.ofString_entry hpath hproper.1 hproper.2.2.2.1 hproper.2.2.2.2 hsize
  cases hpath'.symm.trans hentry
  obtain rfl : name = name' := by simpa using List.append_inj_right' hnames rfl
  exact ⟨hd, hplace, hproper, hsize, hname'.size_le⟩

/-- A request to delete what a directory lists succeeds just when the entry yields to it. -/
theorem delete_entry_iff (hv : v.WellFormed) {v' : Volume} (hd : v.resolve d = .ok place)
    (hplace : v.entry? place = some .directory) (hname : name ∈ v.names place) :
    v.delete (Path.entry d name) = (.ok (), v') ↔
      v.Yields d place name ∧ v' = v.remove (name :: place) := by
  have hentry := mem_names_iff.1 hname
  constructor
  · intro h
    have hlooksUp := lookedUp_of_delete hv hd hplace hname h
    obtain ⟨own, hown, rfl⟩ := (delete_eq_ok_iff hv).1 h
    obtain rfl : own = name :: place := by
      obtain ⟨-, slash, hslot⟩ := hlooksUp.names
      exact hown.names.eq_of_slot hslot
    obtain ⟨found, hfound, hleads⟩ := hown.leads
    refine ⟨⟨hlooksUp.size_path, hlooksUp.size_name, fun hdirectory => ?_, fun target hlink => ?_⟩,
      rfl⟩
    · have hself := hlooksUp.resolve_entry hdirectory (fun _ h => by cases h)
      obtain rfl : found = name :: place := Except.ok.inj (hfound.symm.trans hself)
      exact (hleads.resolve_left (not_not.2 hdirectory)).2
    · obtain ⟨entry, hend⟩ :=
        Option.ne_none_iff_exists'.1 (entry?_ne_none_of_resolve hv hfound)
      refine ⟨found, entry, hfound, hend, ?_⟩
      rintro rfl
      rcases hleads with hleads | ⟨hown, -⟩
      · exact hleads hend
      · cases hlink.symm.trans hown
  · rintro ⟨hyields, rfl⟩
    exact LooksUp.delete ⟨hd, hplace, hv.name name place hentry, hyields.size_path,
      hyields.size_name⟩ hyields hentry

/-! ## Deleting one after the other -/

def strip (v : Volume) (place : Place) (names : List String) : Volume :=
  names.foldl (fun v name => v.remove (name :: place)) v

theorem strip_cons (place : Place) (name : String) (names : List String) :
    v.strip place (name :: names) = (v.remove (name :: place)).strip place names :=
  rfl

theorem strip_append (place : Place) (names more : List String) :
    v.strip place (names ++ more) = (v.strip place names).strip place more :=
  List.foldl_append

theorem home_strip (place : Place) (names : List String) : (v.strip place names).home = v.home := by
  induction names generalizing v with
  | nil => rfl
  | cons name names ih => rw [strip_cons, ih]; rfl

theorem entry?_strip_of_ne {names : List String} {other : Place}
    (h : ∀ name ∈ names, name :: place ≠ other) :
    entry? (v.strip place names) other = v.entry? other := by
  induction names generalizing v with
  | nil => rfl
  | cons first names ih =>
      rw [List.forall_mem_cons] at h
      rw [strip_cons, ih h.2, entry?_remove (List.cons_ne_nil _ _), if_neg h.1]

theorem entry?_strip_of_not_mem {names : List String} (h : name ∉ names) :
    entry? (v.strip place names) (name :: place) = v.entry? (name :: place) := by
  refine entry?_strip_of_ne fun other hother heq => ?_
  cases heq
  exact h hother

theorem entry?_strip_of_mem {names : List String} (h : name ∈ names) :
    entry? (v.strip place names) (name :: place) = none := by
  induction names generalizing v with
  | nil => cases h
  | cons first names ih =>
      by_cases hrest : name ∈ names
      · exact ih hrest
      · obtain rfl := (List.mem_cons.1 h).resolve_right hrest
        rw [strip_cons, entry?_strip_of_ne, entry?_remove (List.cons_ne_nil _ _), if_pos rfl]
        rintro other hother heq
        cases heq
        exact hrest hother

theorem extends_strip {names more : List String} (h : names ⊆ more) :
    (v.strip place names).Extends (v.strip place more) := by
  intro other entry hother
  by_cases hmore : ∃ name ∈ more, name :: place = other
  · obtain ⟨name, hname, rfl⟩ := hmore
    cases (entry?_strip_of_mem hname).symm.trans hother
  · have hne : ∀ name ∈ more, name :: place ≠ other :=
      fun name hname heq => hmore ⟨name, hname, heq⟩
    rw [entry?_strip_of_ne fun name hname => hne name (h hname)]
    rwa [entry?_strip_of_ne hne] at hother

theorem resolve_strip {names more : List String} (h : names ⊆ more) {found : Place}
    (hfound : (v.strip place more).resolve spelling = .ok found) :
    (v.strip place names).resolve spelling = .ok found :=
  resolve_of_extends (extends_strip h) (by rw [home_strip, home_strip]) hfound

theorem names_eq_nil_iff : v.names place = [] ↔ ∀ name, v.entry? (name :: place) = none := by
  rw [List.eq_nil_iff_forall_not_mem]
  exact forall_congr' fun name => by rw [mem_names_iff, not_not]

theorem names_strip_entry (names : List String) :
    (v.strip place names).names (name :: place) = [] ↔ v.names (name :: place) = [] := by
  have hdeeper : ∀ inner, entry? (v.strip place names) (inner :: name :: place) =
      v.entry? (inner :: name :: place) := by
    refine fun inner => entry?_strip_of_ne fun other _ heq => ?_
    exact absurd (List.cons.inj heq).2 (List.cons_ne_self name place).symm
  simp only [names_eq_nil_iff, hdeeper]

theorem names_strip {names : List String} (h : v.names place ⊆ names) :
    (v.strip place names).names place = [] := by
  rw [List.eq_nil_iff_forall_not_mem]
  intro name hname
  have hentry := mem_names_iff.1 hname
  by_cases hmem : name ∈ names
  · exact hentry (entry?_strip_of_mem hmem)
  · rw [entry?_strip_of_not_mem hmem] at hentry
    exact hmem (h (mem_names_iff.2 hentry))

theorem Yields.of_strip {names more : List String} (hsub : names ⊆ more) (hname : name ∉ more)
    (h : (v.strip place more).Yields d place name) : (v.strip place names).Yields d place name := by
  have hsame : entry? (v.strip place names) (name :: place) =
      entry? (v.strip place more) (name :: place) := by
    rw [entry?_strip_of_not_mem hname, entry?_strip_of_not_mem (mt (@hsub name) hname)]
  refine ⟨h.size_path, h.size_name, fun hdirectory => ?_, fun target hlink => ?_⟩
  · rw [hsame] at hdirectory
    have hempty := h.empty hdirectory
    rwa [names_strip_entry] at hempty ⊢
  · rw [hsame] at hlink
    obtain ⟨found, entry, hfound, hend, hdirectory⟩ := h.followed target hlink
    exact ⟨found, entry, resolve_strip hsub hfound, extends_strip hsub _ _ hend, hdirectory⟩

section

variable {order : List String} (hv : v.WellFormed) (hplace : v.entry? place = some .directory)
  (horder : order.Perm (v.names place))
  (hyields : ∀ name ∈ order, (v.strip place (order.erase name)).Yields d place name)

include hv hplace horder hyields

/-- When the names in front are gone, the next one is looked up and yields. -/
theorem lookedUp_strip {done rest : List String} (hdone : order = done ++ name :: rest)
    (hd : (v.strip place done).resolve d = .ok place) :
    (v.strip place done).LooksUp d place name ∧ (v.strip place done).Yields d place name ∧
      entry? (v.strip place done) (name :: place) = v.entry? (name :: place) ∧
      v.entry? (name :: place) ≠ none := by
  have hnodup : order.Nodup := horder.nodup_iff.2 (nodup_names place)
  have hname : name ∈ order := by simp [hdone]
  have hlast : name ∉ order.erase name := hnodup.not_mem_erase
  have hothers : done ⊆ order.erase name := by
    intro other hother
    rw [hnodup.mem_erase_iff, hdone]
    refine ⟨?_, List.mem_append_left _ hother⟩
    rintro rfl
    exact (List.nodup_append.1 (hdone ▸ hnodup)).2.2 other hother other List.mem_cons_self rfl
  have hentry := mem_names_iff.1 (horder.mem_iff.1 hname)
  have hy := (hyields name hname).of_strip hothers hlast
  refine ⟨⟨hd, ?_, hv.name name place hentry, hy.size_path, hy.size_name⟩, hy,
    entry?_strip_of_not_mem (mt (@hothers name) hlast), hentry⟩
  rwa [entry?_strip_of_ne fun other _ => List.cons_ne_self other place]

/-- The path to a directory that holds no other is not cut off. -/
theorem resolve_strip_of_flat (hd : v.resolve d = .ok place)
    (hflat : ∀ name ∈ order, v.entry? (name :: place) ≠ some .directory) {done rest : List String}
    (hdone : order = done ++ rest) : (v.strip place done).resolve d = .ok place := by
  induction done using List.reverseRecOn generalizing rest with
  | nil => exact hd
  | append_singleton done name ih =>
      rw [List.append_assoc, List.singleton_append] at hdone
      obtain ⟨hlooksUp, hy, hsame, hentry⟩ :=
        lookedUp_strip hv hplace horder hyields hdone (ih hdone)
      obtain ⟨entry, hentry⟩ := Option.ne_none_iff_exists'.1 hentry
      have hne := hflat name (by simp [hdone])
      obtain ⟨found, hfound, hend⟩ := hlooksUp.exists_end hy (hsame.trans hentry)
        fun heq => hne (heq ▸ hentry)
      rw [strip_append]
      exact hlooksUp.resolve_remove hfound (hsame ▸ hne) hend

/-- Statements that delete the names still listed delete all of them. -/
theorem result_executeBlock_deletes
    (hd : ∀ done rest, order = done ++ rest → (v.strip place done).resolve d = .ok place)
    (limits : Limits) {done rest : List String} (hdone : order = done ++ rest)
    {body : List Statement}
    (hbody : List.Forall₂ (fun name statement => statement.Deletes (Path.entry d name)) rest body)
    {m : Machine Volume} (hm : m.files = v.strip place done) :
    ∃ m', Run.result (Run.executeBlock (limits.setting fileSystem) body) m = (.ok (), m') ∧
      m'.files = v.strip place order := by
  induction hbody generalizing done m with
  | nil =>
      rw [List.append_nil] at hdone
      exact ⟨m, rfl, hdone ▸ hm⟩
  | @cons name statement rest body hfirst _ ih =>
      obtain ⟨m₁, hresult, hfiles⟩ :=
        Run.result_execute_deletes (limits.setting fileSystem) hfirst m
      obtain ⟨hlooksUp, hy, hsame, hentry⟩ :=
        lookedUp_strip hv hplace horder hyields hdone (hd _ _ hdone)
      have hdelete := answer_delete_eq_iff.2 (hlooksUp.delete hy (hsame ▸ hentry))
      have hm₁ : m₁.files = v.strip place (done ++ [name]) := by
        rw [hfiles, hm, strip_append]
        exact congrArg Prod.snd hdelete
      rw [Run.executeBlock, Run.result_bind_ok hresult]
      exact ih (by rw [hdone, List.append_assoc]; rfl) hm₁

/-- A script that deletes every name of a directory empties it. -/
theorem run_deletes (hd : v.resolve d = .ok place)
    (hkept : (∀ name ∈ order, v.entry? (name :: place) ≠ some .directory) ∨
      (v.strip place order).resolve d = .ok place) (limits : Limits) {body : List Statement}
    (hbody : List.Forall₂ (fun name statement => statement.Deletes (Path.entry d name)) order
      body) :
    ∃ m, Program.run fileSystem limits ⟨body⟩ v = (.finished, m) ∧
      fileSystem.answer (.list d) m.files = (⟨.ok [], none⟩, m.files) ∧
      fileSystem.answer (.count d) m.files = (⟨.ok 0, none⟩, m.files) ∧
      ∀ other, (∀ name, name :: place ≠ other) → m.files.entry? other = v.entry? other := by
  have hd' : ∀ done rest, order = done ++ rest → (v.strip place done).resolve d = .ok place := by
    intro done rest hdone
    rcases hkept with hflat | hkept
    · exact resolve_strip_of_flat hv hplace horder hyields hd hflat hdone
    · exact resolve_strip (hdone ▸ List.subset_append_left done rest) hkept
  obtain ⟨m, hresult, hfiles⟩ := result_executeBlock_deletes hv hplace horder hyields hd' limits
    (List.nil_append order).symm hbody (m := Program.start ⟨body⟩ v) rfl
  have hresolve := hd' order [] (List.append_nil order).symm
  have hdirectory : entry? (v.strip place order) place = some .directory := by
    rwa [entry?_strip_of_ne fun name _ => List.cons_ne_self name place]
  have hempty : (v.strip place order).names place = [] := names_strip horder.symm.subset
  refine ⟨(Program.conclude (.ok (), m)).2, ?_, ?_⟩
  · rw [Program.run, Program.runWith_eq, hresult]
    rfl
  · rw [Program.conclude_files, hfiles, answer_list_eq hresolve hdirectory,
      answer_count_eq hresolve hdirectory, hempty]
    exact ⟨rfl, rfl, fun other hother => entry?_strip_of_ne fun name _ => hother name⟩

end

theorem answer_remove (hname : name ∈ v.names place) (hplace : v.entry? place = some .directory)
    {left : Volume} (hleft : left = v.remove (name :: place))
    (hd : left.resolve d = .ok place) :
    fileSystem.answer (.list d) left = (⟨.ok ((v.names place).erase name), none⟩, left) ∧
      fileSystem.answer (.count d) left =
        (⟨.ok ((v.names place).length - 1), none⟩, left) := by
  have hplace' : left.entry? place = some .directory := by
    rw [hleft, entry?_remove (List.cons_ne_nil _ _), if_neg (List.cons_ne_self name place), hplace]
  have hnames : left.names place = (v.names place).erase name := hleft ▸ names_remove
  rw [answer_list_eq hd hplace', answer_count_eq hd hplace', hnames,
    List.length_erase_of_mem hname]
  exact ⟨rfl, rfl⟩

/-- A listed name can be deleted just when its entry yields. It is then listed and counted no more,
and the others still are, as long as the path leads to the directory; it does so unless it passed
through a directory that was deleted. -/
theorem answer_delete_listed (hv : v.WellFormed) (hd : v.resolve d = .ok place)
    (hplace : v.entry? place = some .directory) :
    fileSystem.answer (.list d) v = (⟨.ok (v.names place), none⟩, v) ∧
      (∀ name ∈ v.names place,
        ((∃ v', fileSystem.answer (.delete (Path.entry d name)) v = (⟨.ok (), none⟩, v')) ↔
          v.Yields d place name) ∧
        ∀ v', fileSystem.answer (.delete (Path.entry d name)) v = (⟨.ok (), none⟩, v') →
          (v.entry? (name :: place) ≠ some .directory → v'.resolve d = .ok place) ∧
          (v'.resolve d = .ok place →
            fileSystem.answer (.list d) v' = (⟨.ok ((v.names place).erase name), none⟩, v') ∧
            fileSystem.answer (.count d) v' = (⟨.ok ((v.names place).length - 1), none⟩, v'))) ∧
      ∀ (limits : Limits) (order : List String) (body : List Statement),
        order.Perm (v.names place) →
        List.Forall₂ (fun name statement => statement.Deletes (Path.entry d name)) order body →
        (∀ name ∈ order, (v.strip place (order.erase name)).Yields d place name) →
        ((∀ name ∈ order, v.entry? (name :: place) ≠ some .directory) ∨
          (v.strip place order).resolve d = .ok place) →
        ∃ m, Program.run fileSystem limits ⟨body⟩ v = (.finished, m) ∧
          fileSystem.answer (.list d) m.files = (⟨.ok [], none⟩, m.files) ∧
          fileSystem.answer (.count d) m.files = (⟨.ok 0, none⟩, m.files) ∧
          ∀ other, (∀ name, name :: place ≠ other) → m.files.entry? other = v.entry? other := by
  refine ⟨answer_list_eq hd hplace, fun name hname => ⟨?_, fun v' hv' => ?_⟩, ?_⟩
  · simp only [answer_delete_eq_iff, delete_entry_iff hv hd hplace hname]
    exact ⟨fun ⟨_, hyields, _⟩ => hyields, fun hyields => ⟨_, hyields, rfl⟩⟩
  · have hdelete := answer_delete_eq_iff.1 hv'
    obtain ⟨hyields, rfl⟩ := (delete_entry_iff hv hd hplace hname).1 hdelete
    refine ⟨fun hne => ?_, fun hd' => answer_remove hname hplace rfl hd'⟩
    have hlooksUp := lookedUp_of_delete hv hd hplace hname hdelete
    obtain ⟨entry, hentry⟩ := Option.ne_none_iff_exists'.1 (mem_names_iff.1 hname)
    obtain ⟨found, hfound, hend⟩ := hlooksUp.exists_end hyields hentry fun heq => hne (heq ▸ hentry)
    exact hlooksUp.resolve_remove hfound hne hend
  · intro limits order body horder hbody hyields hkept
    exact run_deletes hv hplace horder hyields hd hkept limits hbody

/-- A file, an empty directory, and a link to the null device. -/
def furnished : Volume :=
  (single.put ["e", "home"] .directory).put ["n", "home"] (.link "/dev/null")

theorem wellFormed_furnished : furnished.WellFormed := by
  refine WellFormed.put (wellFormed_single.put rfl (by decide) ?_ _) rfl (by decide) ?_ _
  all_goals
    cbv
    exact fun h => by cases h

theorem names_furnished : furnished.names ["home"] = ["a", "e", "n"] := by cbv

theorem yields_furnished : ∀ name ∈ ["e", "n", "a"],
    (furnished.strip ["home"] (["e", "n", "a"].erase name)).Yields "." ["home"] name := by
  refine List.forall_mem_cons.2 ⟨?_, List.forall_mem_cons.2 ⟨?_, List.forall_mem_singleton.2 ?_⟩⟩
  · have hentry : entry? (furnished.strip ["home"] (["e", "n", "a"].erase "e")) ["e", "home"] =
        some .directory := by cbv
    refine ⟨by decide, by decide, fun _ => by cbv, fun target hlink => ?_⟩
    cases hentry.symm.trans hlink
  · have hresolve : (furnished.strip ["home"] (["e", "n", "a"].erase "n")).resolve "./n" =
        .ok ["null", "dev"] := by cbv
    refine ⟨by decide, by decide, fun _ => by cbv, fun target hlink => ?_⟩
    exact ⟨["null", "dev"], .nullDevice, hresolve, by cbv, fun h => by cases h⟩
  · have hentry : entry? (furnished.strip ["home"] (["e", "n", "a"].erase "a")) ["a", "home"] =
        some (.file digits) := by cbv
    refine ⟨by decide, by decide, fun _ => by cbv, fun target hlink => ?_⟩
    cases hentry.symm.trans hlink

def clearing : List Statement :=
  [.call .deleteFile [.text "./e" ⟨1, 14⟩] ⟨1, 3⟩, .call .deleteFile [.text "./n" ⟨2, 14⟩] ⟨2, 3⟩,
    .call .deleteFile [.text "./a" ⟨3, 14⟩] ⟨3, 3⟩]

theorem deletes_clearing :
    List.Forall₂ (fun name statement => statement.Deletes (Path.entry "." name)) ["e", "n", "a"]
      clearing :=
  .cons ⟨⟨1, 3⟩, ⟨1, 14⟩, rfl⟩ <| .cons ⟨⟨2, 3⟩, ⟨2, 14⟩, rfl⟩ <| .cons ⟨⟨3, 3⟩, ⟨3, 14⟩, rfl⟩ .nil

/-- A script deletes the directory, the link and the file, and nothing is left to list. -/
theorem answer_delete_listed_furnished :
    furnished.WellFormed ∧ furnished.resolve "." = .ok ["home"] ∧
      furnished.entry? ["home"] = some .directory ∧
      (∃ v', fileSystem.answer (.delete (Path.entry "." "n")) furnished = (⟨.ok (), none⟩, v') ∧
        fileSystem.answer (.list ".") v' = (⟨.ok ["a", "e"], none⟩, v') ∧
        fileSystem.answer (.count ".") v' = (⟨.ok 2, none⟩, v')) ∧
      ∃ m, Program.run fileSystem {} ⟨clearing⟩ furnished = (.finished, m) ∧
        fileSystem.answer (.list ".") m.files = (⟨.ok [], none⟩, m.files) ∧
        fileSystem.answer (.count ".") m.files = (⟨.ok 0, none⟩, m.files) := by
  have hresolve : furnished.resolve "." = .ok ["home"] := by cbv
  have hhome : furnished.entry? ["home"] = some .directory := by cbv
  obtain ⟨-, hdelete, hscript⟩ := answer_delete_listed wellFormed_furnished hresolve hhome
  rw [names_furnished] at hdelete hscript
  refine ⟨wellFormed_furnished, hresolve, hhome, ?_, ?_⟩
  · have hlink : furnished.entry? ["n", "home"] = some (.link "/dev/null") := by cbv
    obtain ⟨hok, hafter⟩ := hdelete "n" (by decide)
    obtain ⟨v', hv'⟩ := hok.2 <|
      (yields_furnished "n" (by decide)).of_strip (List.nil_subset _) (by decide)
    obtain ⟨hkept, hleft⟩ := hafter v' hv'
    exact ⟨v', hv', hleft (hkept (by rw [hlink]; exact fun h => by cases h))⟩
  · obtain ⟨m, hrun, hlist, hcount, -⟩ := hscript {} ["e", "n", "a"] _ (by decide)
      deletes_clearing yields_furnished (.inr (by cbv))
    exact ⟨m, hrun, hlist, hcount⟩

/-- Two links more: one to nothing, and one to the empty directory. -/
def littered : Volume :=
  (furnished.put ["g", "home"] (.link "gone")).put ["l", "home"] (.link "e")

theorem wellFormed_littered : littered.WellFormed := by
  refine WellFormed.put (wellFormed_furnished.put rfl (by decide) ?_ _) rfl (by decide) ?_ _
  all_goals
    cbv
    exact fun h => by cases h

/-- Both links are listed, and neither can be deleted. -/
theorem listed_not_deleted :
    littered.WellFormed ∧ littered.resolve "." = .ok ["home"] ∧
      littered.entry? ["home"] = some .directory ∧
      fileSystem.answer (.list ".") littered = (⟨.ok ["a", "e", "g", "l", "n"], none⟩, littered) ∧
      littered.entry? ["g", "home"] = some (.link "gone") ∧
      littered.entry? ["l", "home"] = some (.link "e") ∧
      fileSystem.answer (.delete (Path.entry "." "g")) littered =
        (⟨.error (.notFound (Path.entry "." "g")), none⟩, littered) ∧
      fileSystem.answer (.delete (Path.entry "." "l")) littered =
        (⟨.error (.refused (Path.entry "." "l") .notDirectory), none⟩, littered) := by
  have hresolve : littered.resolve "." = .ok ["home"] := by cbv
  have hhome : littered.entry? ["home"] = some .directory := by cbv
  have hnames : littered.names ["home"] = ["a", "e", "g", "l", "n"] := by cbv
  refine ⟨wellFormed_littered, hresolve, hhome, hnames ▸ answer_list_eq hresolve hhome, by cbv,
    by cbv, ?_, ?_⟩
  · have hgone : littered.resolve (Path.entry "." "g") = .error .noEntry := by cbv
    rw [answer_delete_eq_iff]
    exact delete_of_not_resolve fun place hplace => by cases hgone.symm.trans hplace
  · have hlink : littered.entry? ["l", "home"] = some (.link "e") := by cbv
    have hfound : littered.resolve (Path.entry "." "l") = .ok ["e", "home"] := by cbv
    rw [answer_delete_eq_iff]
    exact LooksUp.delete_link ⟨hresolve, hhome, by decide, by decide, by decide⟩ hlink hfound
      (by cbv)

end Volume
end FileChores
