import FileChores.Proofs.Run.LoopLimit

/-!
# Where a run stands

Only the start of a statement moves a run, and nothing that the statement evaluates does. So at
every point a run stands at the statement that was started last.
-/

namespace FileChores

open Run

variable {σ : Type} {α β : Type}

/-! ## One step -/

namespace Run

def Keeps {γ : Type} (view : Machine σ → γ) (x : Run σ α) : Prop :=
  ∀ m, view (result x m).2 = view m

theorem Keeps.bind {γ : Type} {view : Machine σ → γ} {x : Run σ α} {f : α → Run σ β}
    (hx : Keeps view x) (hf : ∀ a, Keeps view (f a)) : Keeps view (x >>= f) := by
  intro m
  have hm := hx m
  rcases h : result x m with ⟨halt | a, m'⟩ <;> rw [h] at hm
  · rw [result_bind_error h]
    exact hm
  · rw [result_bind_ok h]
    exact (hf a m').trans hm

/-- An evaluation keeps all that no event, line or answer shows in. -/
theorem keeps_congruence {γ : Type} {view : Machine σ → γ} (s : Setting σ)
    (hrecord : ∀ event, event.isStatement = false → Keeps view (record event))
    (hprint : ∀ (m : Machine σ) terminal, view { m with terminal := terminal } = view m)
    (hask : ∀ (m : Machine σ) files, view { m with files := files } = view m) :
    EvaluationCongruence id (fun x _ => Keeps view x) s s where
  maxWait := rfl
  pure _ _ := rfl
  bind := Keeps.bind
  fault _ _ := rfl
  record := hrecord
  print _ _ m := hprint m _
  printError _ _ m := hprint m _
  lookup _ _ := rfl
  ask _ m := hask m _

def Stays (x : Run σ α) : Prop :=
  ∀ m, (result x m).2.pos = m.pos

def EndsAt (pos : Position) (x : Run σ α) : Prop :=
  ∀ m, (result x m).2.pos = pos

theorem Stays.bind {x : Run σ α} {f : α → Run σ β} (hx : Stays x) (hf : ∀ a, Stays (f a)) :
    Stays (x >>= f) :=
  Keeps.bind hx hf

theorem EndsAt.bind {pos : Position} {x : Run σ α} {f : α → Run σ β} (hx : EndsAt pos x)
    (hf : ∀ a, Stays (f a)) : EndsAt pos (x >>= f) := by
  intro m
  have hm := hx m
  rcases h : result x m with ⟨halt | a, m'⟩ <;> rw [h] at hm
  · rw [result_bind_error h]
    exact hm
  · rw [result_bind_ok h]
    exact (hf a m').trans hm

theorem endsAt_enter (pos : Position) : EndsAt pos (enter pos : Run σ Unit) :=
  fun _ => rfl

theorem stays_assign (name : String) (value : Value) : Stays (assign name value : Run σ Unit) :=
  fun _ => rfl

theorem stays_congruence (s : Setting σ) : EvaluationCongruence id (fun x _ => Stays x) s s :=
  keeps_congruence s (fun _ _ _ => rfl) (fun _ _ => rfl) fun _ _ => rfl

end Run

namespace Pending

def starts? : Pending → Option Statement
  | statements (first :: _) => some first
  | _ => none

/-- The statement whose own expression, condition or arguments a step of the task evaluates. -/
def statement? : Pending → Option Statement
  | statements [] => none
  | statements (first :: _) => some first
  | loop condition body pos _ | iteration condition body pos _ => some (.loop condition body pos)

/-- Where a run that stood `here` stands after a step of the task. -/
def moved (task : Pending) (here : Position) : Position :=
  (task.starts?.map Statement.pos).getD here

theorem pos_step (s : Setting σ) (task : Pending) (m : Machine σ) :
    (result (task.step s) m).2.pos = task.moved m.pos := by
  have c := stays_congruence s
  have stays (tasks : List Pending) : Stays (pure tasks : Run σ (List Pending)) := c.pure tasks
  cases task with
  | statements block =>
      cases block with
      | nil => rfl
      | cons first rest =>
          refine (?_ : EndsAt first.pos _) m
          cases first with
          | declare name value pos =>
              refine EndsAt.bind ((endsAt_enter pos).bind fun _ => ?_) fun _ => stays _
              exact (c.evaluate value).bind fun a => stays_assign name a
          | assign name value pos =>
              refine EndsAt.bind ((endsAt_enter pos).bind fun _ => ?_) fun _ => stays _
              exact (c.evaluate value).bind fun a => stays_assign name a
          | branch condition thenBlock elseBlock pos =>
              refine (endsAt_enter pos).bind fun _ => (c.test condition).bind fun result => ?_
              cases result with
              | true => exact stays _
              | false => exact stays _
          | loop condition body pos => exact (endsAt_enter pos).bind fun _ => stays _
          | call command args pos =>
              refine EndsAt.bind ((endsAt_enter pos).bind fun _ => ?_) fun _ => stays _
              exact (c.evaluateAll args).bind fun values =>
                (c.call command values pos).bind fun _ => c.pure ()
  | loop condition body pos done =>
      refine (?_ : Stays _) m
      apply (c.test condition).bind
      intro result
      cases result with
      | true => exact stays _
      | false => exact (c.record _ rfl).bind fun _ => stays _
  | iteration condition body pos done => rfl

end Pending

/-! ## The statement started last -/

namespace Point

variable {s : Setting σ} {p q : Point σ}

def moved (p : Point σ) (here : Position) : Position :=
  (p.tasks.head?.map (·.moved here)).getD here

theorem pos_next? (h : p.next? s = some q) : q.machine.pos = p.moved p.machine.pos := by
  obtain ⟨task, rest, later, m, htasks, hresult, rfl⟩ := exists_of_next? h
  have hpos := task.pos_step s p.machine
  rw [hresult] at hpos
  simpa [moved, htasks] using hpos

theorem pos_end? {ending : Except Halt Unit × Machine σ} (h : p.end? s = some ending) :
    ending.2.pos = p.moved p.machine.pos := by
  obtain ⟨tasks, m⟩ := p
  cases tasks with
  | nil => cases h; rfl
  | cons task rest =>
      have hpos := task.pos_step s m
      rcases hx : result (task.step s) m with ⟨halt | later, m'⟩ <;> rw [hx] at hpos
      · simp only [end?, hx] at h
        cases h
        exact hpos
      · simp only [end?, hx] at h
        cases h

end Point

namespace Program

variable (system : FileSystem σ) (wait : Option Nat) (program : Program) (files : σ)

/-- Where the statement stands that was started last in the first `n` steps of a run. -/
def lastStarted : Nat → Position
  | 0 => .start
  | n + 1 =>
      match program.point system wait files n with
      | some p => p.moved (lastStarted n)
      | none => lastStarted n

theorem point_succ (n : Nat) : program.point system wait files (n + 1) =
    (program.point system wait files n).bind (Point.next? (system.unbounded wait)) := by
  rw [point, Point.after_add, point]
  congr 1
  funext p
  rw [Point.after]
  cases p.next? (system.unbounded wait) <;> rfl

theorem pos_point {n : Nat} {p : Point σ} (h : program.point system wait files n = some p) :
    p.machine.pos = program.lastStarted system wait files n := by
  induction n generalizing p with
  | zero => cases h; rfl
  | succ n ih =>
      rw [point_succ] at h
      obtain ⟨q, hq, hnext⟩ := Option.bind_eq_some_iff.1 h
      rw [lastStarted, hq, Point.pos_next? hnext, ih hq]

end Program

end FileChores
