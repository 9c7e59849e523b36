import FileChores.FileSystem.Scripted
import FileChores.Proofs.Run.Standing

/-!
# Histories of a session

Whatever a session has been through, it has its program and its limits, and a run of it is the first
run of a new session on the same files. A single command leaves the variables and the position as
they are.
-/

namespace FileChores

open Run

variable {σ : Type}

/-- With other requests in front of its own, the record of a file system is still a record of it. -/
theorem FileSystem.recorded_behind (system : FileSystem σ) (calls : List Request) :
    system.recorded.LooksLike (fun state => (state.1, calls ++ state.2)) system.recorded := by
  intro request state
  simp only [recorded, List.append_assoc]

theorem Machine.restart_eq_fresh (m : Machine σ) : m.restart = .fresh m.files :=
  rfl

theorem Run.environment_congruence (s : Setting σ) :
    EvaluationCongruence id (fun x _ => Keeps Machine.environment x) s s :=
  keeps_congruence s (fun _ _ _ => rfl) (fun _ _ => rfl) fun _ _ => rfl

namespace Session

/-- What a new session comes to by its steps, each session with its file system. -/
inductive Reached (program : Program) (limits : Limits) :
    {σ : Type} → FileSystem σ → Session σ → Prop
  | start {σ : Type} (system : FileSystem σ) (files : σ) :
      Reached program limits system (.start program limits files)
  | run {σ : Type} {system : FileSystem σ} {session : Session σ} :
      Reached program limits system session →
      Reached program limits system (session.run system).2
  | dispatch {σ : Type} {system : FileSystem σ} {session : Session σ} (command : Command)
      (args : List Value) (pos : Position) : Reached program limits system session →
      Reached program limits system (session.dispatch system command args pos).2
  | withFiles {σ τ : Type} {system : FileSystem σ} {session : Session σ} (other : FileSystem τ)
      (files : τ) : Reached program limits system session →
      Reached program limits other (session.withFiles files)

/-! ## One step -/

theorem run_eq (system : FileSystem σ) (session : Session σ) :
    session.run system =
      ((session.program.run system session.limits session.machine.files).1, { session with
        machine := (session.program.run system session.limits session.machine.files).2 }) := by
  rw [run, takeProgram, Machine.restart_eq_fresh]
  rfl

theorem run_program (system : FileSystem σ) (session : Session σ) :
    (session.run system).2.program = session.program := by
  rw [run_eq]

theorem run_limits (system : FileSystem σ) (session : Session σ) :
    (session.run system).2.limits = session.limits := by
  rw [run_eq]

/-- A run depends on the program, the limits and the files of the session alone. -/
theorem run_congr (system : FileSystem σ) {session session' : Session σ}
    (hprogram : session.program = session'.program) (hlimits : session.limits = session'.limits)
    (hfiles : session.machine.files = session'.machine.files) :
    session.run system = session'.run system := by
  rw [run_eq, run_eq, hprogram, hlimits, hfiles]

theorem dispatch_environment (system : FileSystem σ) (command : Command) (args : List Value)
    (pos : Position) (session : Session σ) :
    (session.dispatch system command args pos).2.machine.environment =
      session.machine.environment :=
  (environment_congruence (session.limits.setting system)).dispatch command args pos
    { session.machine with trace := #[] }

theorem dispatch_pos (system : FileSystem σ) (command : Command) (args : List Value)
    (pos : Position) (session : Session σ) :
    (session.dispatch system command args pos).2.machine.pos = session.machine.pos :=
  (stays_congruence (session.limits.setting system)).dispatch command args pos
    { session.machine with trace := #[] }

/-! ## Any number of steps -/

variable {program : Program} {limits : Limits}

theorem Reached.program_eq {system : FileSystem σ} {session : Session σ}
    (h : Reached program limits system session) : session.program = program := by
  induction h with
  | start => rfl
  | run _ ih => rw [run_program, ih]
  | dispatch _ _ _ _ ih => exact ih
  | withFiles _ _ _ ih => exact ih

theorem Reached.limits_eq {system : FileSystem σ} {session : Session σ}
    (h : Reached program limits system session) : session.limits = limits := by
  induction h with
  | start => rfl
  | run _ ih => rw [run_limits, ih]
  | dispatch _ _ _ _ ih => exact ih
  | withFiles _ _ _ ih => exact ih

/-- Whatever the session has been through, it has its program, its run is the first run of a new
session on the same files and asks what that asks, and a single command binds no variable and does
not move it. -/
theorem run_forgets_history {system : FileSystem σ} {session : Session σ}
    (h : Reached program limits system session) :
    session.program = program ∧ session.limits = limits ∧
    session.run system = (Session.start program limits session.machine.files).run system ∧
    (∀ calls, ((session.withFiles (session.machine.files, calls)).run system.recorded).2.machine =
      ((Session.start program limits (session.machine.files, [])).run
        system.recorded).2.machine.seen fun state => (state.1, calls ++ state.2)) ∧
    ∀ command args pos,
      (session.dispatch system command args pos).2.machine.environment =
        session.machine.environment ∧
      (session.dispatch system command args pos).2.machine.pos = session.machine.pos := by
  refine ⟨h.program_eq, h.limits_eq, run_congr system h.program_eq h.limits_eq rfl, ?_, ?_⟩
  · intro calls
    -- Seen with `calls` in front of its record, the new session is this one.
    have hwith := Reached.withFiles system.recorded (session.machine.files, calls) h
    have hseen := program.runWith_seen (system.recorded_behind calls) limits limits.patience
      (session.machine.files, [])
    rw [run_eq, run_eq, hwith.program_eq, hwith.limits_eq]
    rw [List.append_nil] at hseen
    exact congrArg Prod.snd hseen
  · intro command args pos
    exact ⟨dispatch_environment system command args pos session,
      dispatch_pos system command args pos session⟩

def failing : Program :=
  ⟨[.declare "n" (.binary .sub (.word "n" ⟨1, 11⟩) (.number 1 ⟨1, 15⟩) ⟨1, 13⟩) ⟨1, 3⟩]⟩

/-- The session after a run that was aborted. -/
theorem run_forgets_history_failing :
    ((Session.start failing {} (Scripted.ofResponses [])).run Scripted.fileSystem).1 =
      .aborted (.textSubtraction "Text \"n\"" "Number 1" ⟨1, 13⟩) ∧
    Reached failing {} Scripted.fileSystem
      ((Session.start failing {} (.ofResponses [])).run Scripted.fileSystem).2 ∧
    ((Session.start failing {} (.ofResponses [])).run Scripted.fileSystem).2.run
        Scripted.fileSystem =
      (Session.start failing {} (Scripted.ofResponses [])).run Scripted.fileSystem := by
  have h : Reached failing {} Scripted.fileSystem
      ((Session.start failing {} (.ofResponses [])).run Scripted.fileSystem).2 :=
    .run (.start _ _)
  exact ⟨rfl, h, (run_forgets_history h).2.2.1⟩

end Session

end FileChores
