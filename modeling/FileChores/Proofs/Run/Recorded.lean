import FileChores.Proofs.Run.Related

/-!
# File systems that look alike

A file system may keep more in its state than another one and still answer alike. Seen through a
function that forgets the rest it is the other one, and so every run on it is a run on the other.
In particular a file system can keep a list of what it was asked.
-/

namespace FileChores

variable {σ τ : Type}

/-- Seen through `view`, the file system is `front`. -/
def FileSystem.LooksLike (system : FileSystem σ) (view : σ → τ) (front : FileSystem τ) : Prop :=
  ∀ request files, front.answer request (view files) =
    ((system.answer request files).1, view (system.answer request files).2)

def Machine.seen (view : σ → τ) (m : Machine σ) : Machine τ :=
  { m with files := view m.files }

namespace Run

abbrev Seen (view : Machine σ → Machine τ) {α : Type} (x : Run σ α) (y : Run τ α) : Prop :=
  Related id (fun m n => n = view m) x y

theorem Seen.result_eq {view : Machine σ → Machine τ} {α : Type} {x : Run σ α} {y : Run τ α}
    (h : Seen view x y) (m : Machine σ) :
    result y (view m) = ((result x m).1, view (result x m).2) :=
  Prod.ext (h m _ rfl).result_eq (h m _ rfl).machines

variable {system : FileSystem σ} {view : σ → τ} {front : FileSystem τ}

theorem seen_acts (h : system.LooksLike view front) :
    Machine.ActsAlike id (fun m n => n = m.seen view) system front where
  environment hm := by rw [hm]; rfl
  insert hm _ _ := by rw [hm]; rfl
  stand hm _ := by rw [hm]; rfl
  tell hm event := by rw [hm, event.moved_id]; rfl
  push hm _ := by rw [hm]; rfl
  answer {m m'} hm request := by
    obtain rfl : m' = m.seen view := hm
    exact congrArg Prod.fst (h request m.files)
  ask {m m'} hm request := by
    obtain rfl : m' = m.seen view := hm
    have hanswer := congrArg Prod.snd (h request m.files)
    show { m.seen view with files := (front.answer request (view m.files)).2 } = _
    rw [hanswer]
    rfl

end Run

open Run

theorem Program.runWith_seen {system : FileSystem σ} {view : σ → τ} {front : FileSystem τ}
    (h : system.LooksLike view front) (limits : Limits) (patience : Nat) (program : Program)
    (files : σ) :
    program.runWith ⟨front, limits, patience⟩ (view files) =
      ((program.runWith ⟨system, limits, patience⟩ files).1,
        (program.runWith ⟨system, limits, patience⟩ files).2.seen view) := by
  have c := (seen_acts h).lockstep limits patience
  have hfresh : Machine.fresh (view files) = (Machine.fresh files).seen view := rfl
  have halike := program.runFrom_alike_id (seen_acts h).toStepsAlike c hfresh
  exact Prod.ext halike.1 halike.2

/-! ## Recording the requests -/

/-- The same file system, with the requests so far beside its state. -/
def FileSystem.recorded (system : FileSystem σ) : FileSystem (σ × List Request) where
  answer request state :=
    ((system.answer request state.1).1, (system.answer request state.1).2, state.2 ++ [request])

def Machine.unrecorded (m : Machine (σ × List Request)) : Machine σ :=
  { m with files := m.files.1 }

theorem Program.run_recorded (system : FileSystem σ) (limits : Limits) (program : Program)
    (files : σ) :
    program.run system limits files =
      ((program.run system.recorded limits (files, [])).1,
        (program.run system.recorded limits (files, [])).2.unrecorded) := by
  have h : system.recorded.LooksLike Prod.fst system := fun _ _ => rfl
  exact program.runWith_seen h limits limits.patience (files, [])

end FileChores
