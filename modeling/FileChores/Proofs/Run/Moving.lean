import FileChores.Proofs.Run.Related

/-!
# Running a program in another place

Positions are told and never read. A program whose positions were moved does what the program does
and ends as it does; the lines it prints, its trace, and the fault that stops it name the moved
positions.
-/

namespace FileChores

variable {σ : Type} {f : Position → Position}

/-- The second machine is the first with what it has told in other places. Where it stands is not
compared: both stand at the start before the first statement. -/
structure Machine.Moved (f : Position → Position) (m m' : Machine σ) : Prop where
  environment : m'.environment = m.environment
  lines : m'.terminal.lines = m.terminal.lines.map (Line.moved f)
  trace : m'.trace = m.trace.map (Event.moved f)
  files : m'.files = m.files

theorem Machine.moved_acts (f : Position → Position) (system : FileSystem σ) :
    ActsAlike f (Moved f) system system where
  environment h := h.environment
  insert h name value :=
    ⟨congrArg (·.insert name value) h.environment, h.lines, h.trace, h.files⟩
  stand h _ := ⟨h.environment, h.lines, h.trace, h.files⟩
  tell h event := ⟨h.environment, h.lines, by rw [h.trace, Array.map_push], h.files⟩
  push {m m'} h line := by
    refine ⟨h.environment, ?_, h.trace, h.files⟩
    show m'.terminal.lines.push (line.moved f) = _
    rw [h.lines]
    exact Array.map_push.symm
  answer h request := by rw [h.files]
  ask h request := ⟨h.environment, h.lines, h.trace, by rw [h.files]⟩

theorem Program.runFrom_moved (s : Setting σ) (program : Program) {m m' : Machine σ}
    (h : m.Moved f m') :
    ((program.moved f).runFrom s m').1 = (program.runFrom s m).1.moved f ∧
      (program.runFrom s m).2.Moved f ((program.moved f).runFrom s m').2 := by
  have hacts := Machine.moved_acts f s.files
  exact program.runFrom_alike hacts.toStepsAlike (hacts.lockstep s.limits s.patience) h

end FileChores
