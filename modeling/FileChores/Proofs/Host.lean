import FileChores.Host

/-!
# What a failed request leaves

A request is a course of calls, and a call that is refused has changed nothing. A request that fails
can leave something behind in two ways all the same: a copy is broken off, or a file that could not
be renamed is copied and then cannot be removed.
-/

namespace FileChores

/-- The first path of a request, under which a refusal is reported. -/
def Request.path : Request → String
  | move source _ | copy source _ | rename source _ => source
  | delete path | list path | count path | space path => path

/-- What a request says when its first path does not lead to what it needs. -/
def Request.missing : Request → FileError
  | list path | count path | space path => .directoryNotFound path
  | request => .notFound request.path

theorem Request.missing_ne_refused (request : Request) {path : String} {cause : Refusal} :
    request.missing ≠ .refused path cause := by
  cases request <;> exact fun h => by cases h

namespace Host

variable {σ : Type} {host : Host σ} {files left : σ} {request : Request} {source target : String}
  {e : FileError}

/-- The first path of a request leads to what the request needs. -/
def Meets (host : Host σ) (files : σ) : Request → Prop
  | .list path | .count path => host.isDirectory files path = true
  | request => host.resolves files request.path = true

/-- A file that is copied because it cannot be renamed. -/
structure Detours (host : Host σ) (files : σ) (source target : String) : Prop where
  resolves : host.resolves files source = true
  rename : ∃ cause, host.rename files source target = .error cause
  isFile : host.isFile files source = true

def BreaksOff (host : Host σ) (files : σ) (source target : String) (left : σ) : Prop :=
  ∃ cause, host.copy files source target = .brokenOff cause left

/-- A failed request that leaves something behind. -/
inductive Leaves (host : Host σ) (files : σ) : Request → σ → Prop
  | copy {source target : String} {left : σ} : host.resolves files source = true →
      host.BreaksOff files source target left → Leaves host files (.copy source target) left
  | broken {request : Request} {source target : String} {left : σ} :
      request = .move source target ∨ request = .rename source target →
      host.Detours files source target → host.BreaksOff files source target left →
      Leaves host files request left
  | kept {request : Request} {source target : String} {left : σ} {bytes : Nat} {cause : Refusal} :
      request = .move source target ∨ request = .rename source target →
      host.Detours files source target → host.copy files source target = .done bytes left →
      host.unlink left source = .error cause → Leaves host files request left

/-- How a request fails: with `missing` when its path does not meet what it needs, and else with a
refusal under that path. -/
structure Refuses (files : σ) (missing : FileError) (path : String) (meets : Prop)
    (leaves : σ → Prop) {α : Type} (outcome : Except FileError α × σ) : Prop where
  missing : ¬ meets → outcome = (.error missing, files)
  refused : meets → ∀ e, outcome.1 = .error e →
    (∃ cause, e = .refused path cause) ∧ (outcome.2 = files ∨ leaves outcome.2)

theorem settle_error {path : String} {settled : Except Refusal σ} {left : σ}
    (h : settle files path settled = (.error e, left)) :
    (∃ cause, settled = .error cause ∧ e = .refused path cause) ∧ left = files := by
  cases settled with
  | ok => cases h
  | error cause => cases h; exact ⟨⟨cause, rfl, rfl⟩, rfl⟩

theorem settle_eq_ok_iff {path : String} {settled : Except Refusal σ} :
    settle files path settled = (.ok (), left) ↔ settled = .ok left := by
  cases settled <;> simp [settle]

/-! ## Copying -/

theorem transfer_error (h : host.transfer files source target = (.error e, left)) :
    (∃ cause, e = .refused source cause) ∧
      (left = files ∨ host.BreaksOff files source target left) := by
  unfold transfer at h
  split at h
  · next cause _ => cases h; exact ⟨⟨cause, rfl⟩, .inl rfl⟩
  · next cause _ hcopy => cases h; exact ⟨⟨cause, rfl⟩, .inr ⟨cause, hcopy⟩⟩
  · cases h

theorem transfer_eq_ok {bytes : Nat} (h : host.transfer files source target = (.ok bytes, left)) :
    host.copy files source target = .done bytes left := by
  unfold transfer at h
  split at h
  · cases h
  · cases h
  · next hcopy => cases h; exact hcopy

theorem transfer_of_breaksOff (h : host.BreaksOff files source target left) :
    ∃ cause, host.transfer files source target = (.error (.refused source cause), left) := by
  obtain ⟨cause, hcopy⟩ := h
  exact ⟨cause, by rw [transfer, hcopy]⟩

theorem copyFile_refuses :
    Refuses files (.notFound source) source (host.resolves files source = true)
      (host.Leaves files (.copy source target)) (host.copyFile files source target) := by
  refine ⟨fun h => if_neg h, fun h e he => ?_⟩
  rw [copyFile, if_pos h] at he ⊢
  obtain ⟨hcause, hleft⟩ := transfer_error (Prod.ext he rfl)
  exact ⟨hcause, hleft.imp_right (.copy h)⟩

/-! ## Moving -/

theorem relocate_of_rename_error {cause : Refusal} (hsource : host.resolves files source = true)
    (hrename : host.rename files source target = .error cause) :
    host.relocate files source target = host.copyInstead files source target cause := by
  rw [relocate, if_pos hsource, hrename]

theorem relocate_of_breaksOff (h : host.Detours files source target)
    (hcopy : host.BreaksOff files source target left) :
    ∃ cause detour, host.relocate files source target =
      (.error (.refused source cause), detour, left) := by
  obtain ⟨hsource, ⟨cause, hrename⟩, hfile⟩ := h
  obtain ⟨cause', htransfer⟩ := transfer_of_breaksOff hcopy
  rw [relocate_of_rename_error hsource hrename, copyInstead, if_pos hfile, htransfer]
  exact ⟨cause', some cause, rfl⟩

theorem relocate_of_kept {bytes : Nat} {cause : Refusal} (h : host.Detours files source target)
    (hcopy : host.copy files source target = .done bytes left)
    (hunlink : host.unlink left source = .error cause) :
    ∃ cause detour, host.relocate files source target =
      (.error (.refused source cause), detour, left) := by
  obtain ⟨hsource, ⟨cause', hrename⟩, hfile⟩ := h
  rw [relocate_of_rename_error hsource hrename, copyInstead, if_pos hfile, transfer, hcopy]
  dsimp only
  rw [hunlink]
  exact ⟨cause, some cause', rfl⟩

theorem relocate_error {detour : Option Refusal} (hsource : host.resolves files source = true)
    (hrequest : request = .move source target ∨ request = .rename source target)
    (h : host.relocate files source target = (.error e, detour, left)) :
    (∃ cause, e = .refused source cause) ∧ (left = files ∨ host.Leaves files request left) := by
  cases hrename : host.rename files source target with
  | ok =>
      rw [relocate, if_pos hsource, hrename] at h
      cases h
  | error cause =>
      rw [relocate_of_rename_error hsource hrename, copyInstead] at h
      split at h
      · next hfile =>
        have hdetours : host.Detours files source target := ⟨hsource, ⟨cause, hrename⟩, hfile⟩
        split at h
        · next htransfer =>
          cases h
          obtain ⟨hcause, hleft⟩ := transfer_error htransfer
          exact ⟨hcause, hleft.imp_right (.broken hrequest hdetours)⟩
        · next copied htransfer =>
          have hsettle : settle copied source (host.unlink copied source) = (.error e, left) :=
            Prod.ext (Prod.mk.inj h).1 (Prod.mk.inj (Prod.mk.inj h).2).2
          obtain ⟨⟨cause', hunlink, rfl⟩, rfl⟩ := settle_error hsettle
          exact ⟨⟨cause', rfl⟩,
            .inr (.kept hrequest hdetours (transfer_eq_ok htransfer) hunlink)⟩
      · cases h
        exact ⟨⟨cause, rfl⟩, .inl rfl⟩

theorem relocate_refuses
    (hrequest : request = .move source target ∨ request = .rename source target) :
    Refuses files (.notFound source) source (host.resolves files source = true)
      (host.Leaves files request)
      ((host.relocate files source target).1, (host.relocate files source target).2.2) := by
  refine ⟨fun h => ?_, fun h e he => relocate_error h hrequest (Prod.ext he rfl)⟩
  rw [relocate, if_neg h]

theorem relocate_eq_ok {detour : Option Refusal}
    (h : host.relocate files source target = (.ok (), detour, left)) :
    detour = none ∧ host.rename files source target = .ok left ∨
      ∃ cause bytes copied, detour = some cause ∧ host.rename files source target = .error cause ∧
        host.copy files source target = .done bytes copied ∧
        host.unlink copied source = .ok left := by
  unfold relocate at h
  split at h
  · split at h
    · next hrename =>
      cases h
      exact .inl ⟨rfl, hrename⟩
    · next cause hrename =>
      unfold copyInstead at h
      split at h
      · split at h
        · cases h
        · next bytes copied htransfer =>
          obtain ⟨hresult, hrest⟩ := Prod.mk.inj h
          obtain ⟨hdetour, hleft⟩ := Prod.mk.inj hrest
          exact .inr ⟨cause, bytes, copied, hdetour.symm, hrename, transfer_eq_ok htransfer,
            settle_eq_ok_iff.1 (Prod.ext hresult hleft)⟩
      · cases h
  · cases h

/-! ## Removing and asking -/

theorem delete_refuses {path : String} :
    Refuses files (.notFound path) path (host.resolves files path = true)
      (host.Leaves files (.delete path)) (host.delete files path) := by
  refine ⟨fun h => if_neg h, fun h e he => ?_⟩
  rw [delete, if_pos h] at he ⊢
  obtain ⟨⟨cause, -, hcause⟩, hleft⟩ := settle_error (Prod.ext he rfl)
  exact ⟨⟨cause, hcause⟩, .inl hleft⟩

theorem asked_refuses {α : Type} {missing : FileError} {path : String} {found : Bool}
    {leaves : σ → Prop} (told : Except Refusal α) :
    Refuses files missing path (found = true) leaves
      (if found then told.mapError (.refused path) else .error missing, files) := by
  refine ⟨fun h => by rw [if_neg h], fun h e he => ?_⟩
  rw [if_pos h] at he
  cases told with
  | ok => cases he
  | error cause => cases he; exact ⟨⟨cause, rfl⟩, .inl rfl⟩

theorem count_eq {path : String} :
    host.count files path =
      if host.isDirectory files path then
        ((host.names files path).map List.length).mapError (.refused path)
      else .error (.directoryNotFound path) := by
  rw [count, list]
  split
  · cases host.names files path <;> rfl
  · rfl

/-! ## Requests -/

theorem answer_refuses (host : Host σ) (files : σ) (request : Request) :
    Refuses files request.missing request.path (host.Meets files request)
      (host.Leaves files request)
      ((host.fileSystem.answer request files).1.result,
        (host.fileSystem.answer request files).2) := by
  cases request with
  | move source target => exact relocate_refuses (.inl rfl)
  | copy source target => exact copyFile_refuses
  | rename source target => exact relocate_refuses (.inr rfl)
  | delete path => exact delete_refuses
  | list path => exact asked_refuses (host.names files path)
  | count path =>
      change Refuses _ _ _ _ _ (host.count files path, files)
      rw [count_eq]
      exact asked_refuses ((host.names files path).map List.length)
  | space path => exact asked_refuses (host.space files path)

/-- The error is the one about a missing path just when the path is missing, and else names the
cause of the refusal. -/
theorem answer_error (host : Host σ) (files : σ) (request : Request) :
    ((host.fileSystem.answer request files).1.result = .error request.missing ↔
      ¬ host.Meets files request) ∧
    ∀ e, (host.fileSystem.answer request files).1.result = .error e →
      (e = request.missing ∨ ∃ cause, e = .refused request.path cause) ∧
        ((host.fileSystem.answer request files).2 = files ∨
          host.Leaves files request (host.fileSystem.answer request files).2) := by
  obtain ⟨hmissing, hrefused⟩ := answer_refuses host files request
  refine ⟨⟨fun h hmeets => ?_, fun h => congrArg Prod.fst (hmissing h)⟩, fun e he => ?_⟩
  · obtain ⟨⟨cause, hcause⟩, -⟩ := hrefused hmeets _ h
    exact request.missing_ne_refused hcause
  · by_cases hmeets : host.Meets files request
    · exact (hrefused hmeets e he).imp_left .inr
    · have hanswer := hmissing hmeets
      exact ⟨.inl (Except.error.inj (he.symm.trans (congrArg Prod.fst hanswer))),
        .inl (congrArg Prod.snd hanswer)⟩

theorem answer_of_leaves (h : host.Leaves files request left) :
    (∃ cause, (host.fileSystem.answer request files).1.result =
      .error (.refused request.path cause)) ∧
      (host.fileSystem.answer request files).2 = left := by
  have hmove {request : Request} {source target : String} {cause : Refusal}
      {detour : Option Refusal} {left : σ}
      (hrequest : request = .move source target ∨ request = .rename source target)
      (h : host.relocate files source target = (.error (.refused source cause), detour, left)) :
      (∃ cause, (host.fileSystem.answer request files).1.result =
        .error (.refused request.path cause)) ∧
        (host.fileSystem.answer request files).2 = left := by
    rcases hrequest with rfl | rfl <;>
      exact ⟨⟨cause, congrArg Prod.fst h⟩, congrArg (fun outcome => outcome.2.2) h⟩
  cases h with
  | copy hsource hcopy =>
      obtain ⟨cause, htransfer⟩ := transfer_of_breaksOff hcopy
      have hanswer : host.copyFile files _ _ = _ := (if_pos hsource).trans htransfer
      exact ⟨⟨cause, congrArg Prod.fst hanswer⟩, congrArg Prod.snd hanswer⟩
  | broken hrequest hdetours hcopy =>
      obtain ⟨_, _, hrelocate⟩ := relocate_of_breaksOff hdetours hcopy
      exact hmove hrequest hrelocate
  | kept hrequest hdetours hcopy hunlink =>
      obtain ⟨_, _, hrelocate⟩ := relocate_of_kept hdetours hcopy hunlink
      exact hmove hrequest hrelocate

end Host

end FileChores
