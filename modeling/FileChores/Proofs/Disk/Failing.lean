import FileChores.Proofs.Disk

/-!
# Requests that fail on a disk

A request that fails may have written its target. It has changed nothing else, and on a volume,
where nothing is denied and no copy is broken off, it has changed nothing at all.
-/

namespace FileChores

def Request.target? : Request → Option String
  | move _ target | copy _ target | rename _ target => some target
  | delete _ | list _ | count _ | space _ => none

theorem Request.target?_of_moves {request : Request} {source target : String}
    (h : request = .move source target ∨ request = .rename source target) :
    request.target? = some target := by
  rcases h with rfl | rfl <;> rfl

namespace Disk

open Volume (Spot)

variable {d d' : Disk} {request : Request} {source target : String}

/-- The file that a target leads to has been written, and nothing else. -/
def Spoils (d d' : Disk) (target : String) : Prop :=
  ∃ spot content, d.volume.writable target = .ok spot ∧ d.Writes d' spot.place content

theorem spoils_of_store (hd : d.WellFormed) {place : Place} {content bytes : ByteArray}
    {spot : Spot} (hcopies : d.volume.Copies source target place content spot) :
    d.store spot bytes = d ∨ d.Spoils (d.store spot bytes) target := by
  obtain ⟨-, hstore⟩ | ⟨htakes, hstore⟩ :=
    @store_cases d bytes spot (Volume.opened_of_writable hd.tree hcopies.writable)
  · exact .inl hstore
  · rw [hstore]
    exact .inr ⟨spot, bytes, hcopies.writable, writes_write hd htakes⟩

theorem spoils_of_breaksOff (hd : d.WellFormed) (h : host.BreaksOff d source target d') :
    d' = d ∨ d.Spoils d' target := by
  obtain ⟨cause, hcopy⟩ := h
  obtain ⟨place, content, spot, hcopies, rfl⟩ := exists_copies_of_brokenOff hcopy
  exact spoils_of_store hd hcopies

theorem spoils_of_leaves (hd : d.WellFormed) (h : host.Leaves d request d') :
    d' = d ∨ ∃ target, request.target? = some target ∧ d.Spoils d' target := by
  cases h with
  | copy _ hcopy => exact (spoils_of_breaksOff hd hcopy).imp_right fun h => ⟨_, rfl, h⟩
  | broken hrequest _ hcopy =>
      exact (spoils_of_breaksOff hd hcopy).imp_right fun h =>
        ⟨_, Request.target?_of_moves hrequest, h⟩
  | kept hrequest _ hcopy =>
      obtain ⟨place, content, spot, hcopies, rfl⟩ := exists_copies_of_done hcopy
      exact (spoils_of_store hd hcopies).imp_right fun h =>
        ⟨_, Request.target?_of_moves hrequest, h⟩

/-! ## A locked directory and a damaged file -/

theorem store_of_takesFile (hd : d.WellFormed) (spot : Spot)
    (hspot : d.volume.TakesFile spot.place) (content : ByteArray) :
    (d.store spot content).volume.entry? spot.place = some (.file content) := by
  have hstore : d.store spot content = d.write spot.place content := by
    rw [store]
    obtain hfree | ⟨old, hold⟩ := hspot.2
    · rw [hfree]
    · rw [hold]
  rw [hstore]
  exact (writes_write hd hspot).written _ (oneFile_iff.2 (.inl rfl))

def guarded : Disk :=
  marked Volume.single ["home"] { locked := true }

theorem wellFormed_guarded : guarded.WellFormed := by
  refine wellFormed_marked Volume.wellFormed_single ?_ rfl
  cbv
  exact fun h => by cases h

theorem copy_guarded : host.copy guarded "a" "/b" =
    .done 5 (guarded.store (.vacant [] "b") Volume.digits) := by cbv

theorem unlink_guarded :
    host.unlink (guarded.store (.vacant [] "b") Volume.digits) "a" = .error .denied := by cbv

theorem detours_guarded : host.Detours guarded "a" "/b" := by
  have hrename : host.rename guarded "a" "/b" = .error .denied := by cbv
  have hfile : Volume.single.isFile "a" = true := by
    simp only [Volume.isFile, Volume.resolve_single, Volume.fileAt?, Volume.entry?_single,
      Option.isSome_some]
  exact ⟨Volume.resolves_iff.2 ⟨_, Volume.resolve_single⟩, ⟨_, hrename⟩, hfile⟩

theorem free_guarded : guarded.volume.entry? ["b"] = none := by cbv

/-- The file `a` cannot be read, and another one can. -/
def rotten : Disk :=
  marked (Volume.single.put ["b", "home"] (.file Volume.digits)) ["a", "home"]
    { damaged := true }

theorem entry?_rotten : rotten.volume.entry? ["b", "home"] = some (.file Volume.digits) := by cbv

theorem wellFormed_rotten : rotten.WellFormed := by
  refine wellFormed_marked (Volume.wellFormed_single.put rfl (by decide) ?_ _) ?_ rfl
  · cbv
    exact fun h => by cases h
  · cbv
    exact fun h => by cases h

theorem copy_rotten : host.copy rotten "a" "b" =
    .brokenOff .unreadable (rotten.store (.present ["b", "home"]) .empty) := by cbv

/-! ## What is left -/

/-- The error is the one about a missing path just when the path is missing, and else names the
cause of the refusal. A failed request leaves what a copy left that was broken off, or that was done
before its source could not be removed. On a disk this is a file that the target leads to, and on a
volume nothing. -/
theorem answer_error_leaves (request : Request) :
    (∀ {σ : Type} (host : Host σ) (files : σ),
      ((host.fileSystem.answer request files).1.result = .error request.missing ↔
        ¬ host.Meets files request) ∧
      (∀ e, (host.fileSystem.answer request files).1.result = .error e →
        (e = request.missing ∨ ∃ cause, e = .refused request.path cause) ∧
          ((host.fileSystem.answer request files).2 = files ∨
            host.Leaves files request (host.fileSystem.answer request files).2)) ∧
      ∀ left, host.Leaves files request left →
        (∃ cause, (host.fileSystem.answer request files).1.result =
          .error (.refused request.path cause)) ∧
        (host.fileSystem.answer request files).2 = left) ∧
    (∀ d : Disk, d.WellFormed → ∀ e, (fileSystem.answer request d).1.result = .error e →
      (fileSystem.answer request d).2 = d ∨
        ∃ target, request.target? = some target ∧ d.Spoils (fileSystem.answer request d).2 target) ∧
    ∀ v : Volume, v.WellFormed →
      ((Volume.fileSystem.answer request v).1.result = .error request.missing ↔
        ¬ v.Meets request) ∧
      ∀ e, (Volume.fileSystem.answer request v).1.result = .error e →
        (Volume.fileSystem.answer request v).2 = v := by
  refine ⟨fun host files => ?_, fun d hd e he => ?_, fun v hv => ?_⟩
  · obtain ⟨hmissing, hkind⟩ := host.answer_error files request
    exact ⟨hmissing, hkind, fun left => Host.answer_of_leaves⟩
  · obtain hleft | hleaves := ((host.answer_error d request).2 e he).2
    · exact .inl hleft
    · exact spoils_of_leaves hd hleaves
  · obtain ⟨hmissing, hkind⟩ := Volume.host.answer_error v request
    refine ⟨hmissing.trans (not_congr Volume.host_meets_iff), fun e he => ?_⟩
    exact (hkind e he).2.resolve_right (Volume.not_leaves hv)

/-- A file is copied out of a directory that cannot be changed, and stays there. -/
theorem answer_error_leaves_denied :
    guarded.WellFormed ∧ Volume.empty.WellFormed ∧
      (∃ cause, (fileSystem.answer (.move "a" "/b") guarded).1.result =
        .error (.refused "a" cause)) ∧
      guarded.Spoils (fileSystem.answer (.move "a" "/b") guarded).2 "/b" ∧
      (Volume.fileSystem.answer (.move "a" "/b") Volume.empty).1.result =
        .error (.notFound "a") ∧
      (Volume.fileSystem.answer (.move "a" "/b") Volume.empty).2 = Volume.empty := by
  obtain ⟨hhost, hdisk, hvolume⟩ := answer_error_leaves (.move "a" "/b")
  obtain ⟨⟨cause, hresult⟩, hleft⟩ := (hhost host guarded).2.2 _
    (.kept (.inl rfl) detours_guarded copy_guarded unlink_guarded)
  obtain ⟨hmissing, hkept⟩ := hvolume Volume.empty Volume.wellFormed_empty
  have hnowhere : Volume.empty.resolves "a" = false := by cbv
  have hnotFound := hmissing.2 (mt Volume.resolves_iff.2 (Bool.eq_false_iff.1 hnowhere))
  refine ⟨wellFormed_guarded, Volume.wellFormed_empty, ⟨cause, hresult⟩, ?_, hnotFound,
    hkept _ hnotFound⟩
  obtain hsame | ⟨target, htarget, hspoils⟩ := hdisk guarded wellFormed_guarded _ hresult
  · have hstored := store_of_takesFile wellFormed_guarded (.vacant [] "b")
      ⟨List.cons_ne_nil _ _, .inl free_guarded⟩ Volume.digits
    rw [← hleft] at hstored
    have hfree := free_guarded
    rw [← hsame] at hfree
    cases hfree.symm.trans hstored
  · cases htarget
    exact hspoils

/-- A file is moved out of a directory that cannot be changed, and a file that cannot be read is
copied onto another one. Both requests fail. The first one leaves a file that was not there, the
second one leaves the other file empty. -/
theorem failed_requests_write :
    guarded.WellFormed ∧
      (fileSystem.answer (.move "a" "/b") guarded).1.result = .error (.refused "a" .denied) ∧
      guarded.volume.entry? ["b"] = none ∧
      (fileSystem.answer (.move "a" "/b") guarded).2.volume.entry? ["b"] =
        some (.file Volume.digits) ∧
    rotten.WellFormed ∧
      (fileSystem.answer (.copy "a" "b") rotten).1.result = .error (.refused "a" .unreadable) ∧
      rotten.volume.entry? ["b", "home"] = some (.file Volume.digits) ∧
      (fileSystem.answer (.copy "a" "b") rotten).2.volume.entry? ["b", "home"] =
        some (.file .empty) := by
  obtain ⟨hresolves, ⟨cause, hrename⟩, hfile⟩ := detours_guarded
  have hmove : host.relocate guarded "a" "/b" = (.error (.refused "a" .denied), some cause,
      guarded.store (.vacant [] "b") Volume.digits) := by
    rw [Host.relocate_of_rename_error hresolves hrename, Host.copyInstead, if_pos hfile,
      Host.transfer, copy_guarded]
    dsimp only
    rw [unlink_guarded]
    rfl
  have hresolves' : host.resolves rotten "a" = true := by cbv
  have hcopy : host.copyFile rotten "a" "b" = (.error (.refused "a" .unreadable),
      rotten.store (.present ["b", "home"]) .empty) := by
    rw [Host.copyFile, if_pos hresolves', Host.transfer, copy_rotten]
  simp only [fileSystem, Host.fileSystem, hmove, hcopy]
  exact ⟨wellFormed_guarded, trivial, free_guarded,
    store_of_takesFile wellFormed_guarded (.vacant [] "b")
      ⟨List.cons_ne_nil _ _, .inl free_guarded⟩ _,
    wellFormed_rotten, trivial, entry?_rotten,
    store_of_takesFile wellFormed_rotten (.present ["b", "home"])
      ⟨List.cons_ne_nil _ _, .inr ⟨_, entry?_rotten⟩⟩ _⟩

end Disk

end FileChores
