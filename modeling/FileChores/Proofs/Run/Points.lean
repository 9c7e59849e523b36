import FileChores.Proofs.Run.Congruence
import FileChores.Proofs.Run.Result

/-!
# The points of a run

A run without a limit on its loops, taken apart into points: what is still to be done, and the
machine so far. Every execution of a loop counts its own iterations, from zero on. The run goes from
point to point, perhaps for ever, until nothing is left to do or a step faults.
-/

namespace FileChores

variable {σ : Type}

/-- What a run has still to do. -/
inductive Pending
  | statements (block : List Statement)
  /-- An execution of a loop that has made `done` iterations and is to evaluate its condition. -/
  | loop (condition : Condition) (body : List Statement) (pos : Position) (done : Nat)
  /-- The same, after the condition held: the next iteration starts here. -/
  | iteration (condition : Condition) (body : List Statement) (pos : Position) (done : Nat)

def FileSystem.unbounded (system : FileSystem σ) (wait : Option Nat) : Setting σ :=
  ⟨system, ⟨none, wait⟩, 0⟩

namespace Pending

open Run

/-- One step of a task, with what is to be done in its place. -/
def step (setting : Setting σ) : Pending → Run σ (List Pending)
  | statements [] => return []
  | statements (.branch condition thenBlock elseBlock pos :: rest) => do
      enter pos
      if ← test setting condition then return [statements thenBlock, statements rest]
      else return [statements (elseBlock.getD []), statements rest]
  | statements (.loop condition body pos :: rest) => do
      enter pos
      return [loop condition body pos 0, statements rest]
  | statements (simple :: rest) => do
      execute setting simple
      return [statements rest]
  | loop condition body pos done => do
      if ← test setting condition then return [iteration condition body pos done]
      else
        record (.loopFinished done pos)
        return []
  | iteration condition body pos done =>
      return [statements body, loop condition body pos (done + 1)]

end Pending

structure Point (σ : Type) where
  tasks : List Pending
  machine : Machine σ

namespace Point

variable {setting : Setting σ}

def next? (setting : Setting σ) (p : Point σ) : Option (Point σ) :=
  match p.tasks with
  | [] => none
  | task :: rest =>
      match Run.result (task.step setting) p.machine with
      | (.ok tasks, m) => some ⟨tasks ++ rest, m⟩
      | (.error _, _) => none

def end? (setting : Setting σ) (p : Point σ) : Option (Except Halt Unit × Machine σ) :=
  match p.tasks with
  | [] => some (.ok (), p.machine)
  | task :: _ =>
      match Run.result (task.step setting) p.machine with
      | (.ok _, _) => none
      | (.error halt, m) => some (.error halt, m)

def after (setting : Setting σ) : Nat → Point σ → Option (Point σ)
  | 0, p => some p
  | n + 1, p => (p.next? setting).bind (after setting n)

/-- An execution of the loop at `pos` that has made `done` iterations starts one more. -/
def Starts (p : Point σ) (done : Nat) (pos : Position) : Prop :=
  ∃ condition body rest, p.tasks = .iteration condition body pos done :: rest

theorem Starts.pos_eq {p : Point σ} {done done' : Nat} {pos pos' : Position}
    (h : p.Starts done pos) (h' : p.Starts done' pos') : pos = pos' := by
  obtain ⟨condition, body, rest, htasks⟩ := h
  obtain ⟨condition', body', rest', htasks'⟩ := h'
  rw [htasks] at htasks'
  cases htasks'
  rfl

theorem exists_of_next? {p q : Point σ} (h : p.next? setting = some q) :
    ∃ task rest later m, p.tasks = task :: rest ∧
      Run.result (task.step setting) p.machine = (.ok later, m) ∧ q = ⟨later ++ rest, m⟩ := by
  obtain ⟨tasks, m⟩ := p
  cases tasks with
  | nil => cases h
  | cons task rest =>
      rcases hx : Run.result (task.step setting) m with ⟨halt | later, m'⟩
      · simp only [next?, hx] at h
        cases h
      · simp only [next?, hx] at h
        cases h
        exact ⟨task, rest, later, m', rfl, hx, rfl⟩

theorem exists_of_end?_error {p : Point σ} {halt : Halt} {m : Machine σ}
    (h : p.end? setting = some (.error halt, m)) :
    ∃ task rest, p.tasks = task :: rest ∧
      Run.result (task.step setting) p.machine = (.error halt, m) := by
  obtain ⟨tasks, m'⟩ := p
  cases tasks with
  | nil => cases h
  | cons task rest =>
      rcases hx : Run.result (task.step setting) m' with ⟨halt | later, m''⟩
      · simp only [end?, hx] at h
        cases h
        exact ⟨task, rest, rfl, hx⟩
      · simp only [end?, hx] at h
        cases h

theorem next?_eq_none_of_end? {p : Point σ} {ending : Except Halt Unit × Machine σ}
    (h : p.end? setting = some ending) : p.next? setting = none := by
  obtain ⟨tasks, m⟩ := p
  cases tasks with
  | nil => rfl
  | cons task rest =>
      simp only [end?, next?] at *
      split at h <;> simp_all

theorem end?_eq_none_of_starts {p : Point σ} {done : Nat} {pos : Position} (h : p.Starts done pos) :
    p.end? setting = none := by
  obtain ⟨tasks, m⟩ := p
  obtain ⟨condition, body, rest, rfl⟩ := h
  rfl

theorem after_add (n k : Nat) (p : Point σ) :
    after setting (n + k) p = (after setting n p).bind (after setting k) := by
  induction n generalizing p with
  | zero => rw [Nat.zero_add]; rfl
  | succ n ih =>
      rw [Nat.add_right_comm, after, after, Option.bind_assoc]
      congr 1
      funext q
      exact ih q

/-- `n` steps from one point to another; every point that is left on the way is quiet. -/
inductive Walk (setting : Setting σ) (quiet : Point σ → Prop) : Nat → Point σ → Point σ → Prop
  | stay (p : Point σ) : Walk setting quiet 0 p p
  | step {n : Nat} {p q r : Point σ} : quiet p → p.next? setting = some q →
      Walk setting quiet n q r → Walk setting quiet (n + 1) p r

namespace Walk

variable {quiet : Point σ → Prop} {n k : Nat} {p q r : Point σ}

theorem trans (h : Walk setting quiet n p q) (h' : Walk setting quiet k q r) :
    Walk setting quiet (n + k) p r := by
  induction h with
  | stay p => rwa [Nat.zero_add]
  | step hquiet hnext _ ih =>
      rw [Nat.add_right_comm]
      exact .step hquiet hnext (ih h')

theorem after_eq (h : Walk setting quiet n p q) : after setting n p = some q := by
  induction h with
  | stay p => rfl
  | step _ hnext _ ih => rw [after, hnext, Option.bind_some, ih]

theorem quiet_of_lt (h : Walk setting quiet n p q) (hk : k < n) {r : Point σ}
    (hr : after setting k p = some r) : quiet r := by
  induction h generalizing k with
  | stay p => cases hk
  | step hquiet hnext _ ih =>
      cases k with
      | zero => cases hr; exact hquiet
      | succ k =>
          rw [after, hnext, Option.bind_some] at hr
          exact ih (by omega) hr

/-- The first point that is not quiet ends every walk that reaches it. -/
theorem le_of_not_quiet (h : Walk setting quiet n p q) (hr : after setting k p = some r)
    (hquiet : ¬ quiet r) : n ≤ k := by
  refine Nat.le_of_not_lt fun hlt => hquiet ?_
  exact h.quiet_of_lt hlt hr

theorem le_of_end? (h : Walk setting quiet n p q) {ending : Except Halt Unit × Machine σ}
    (hend : q.end? setting = some ending) (hr : after setting k p = some r) : k ≤ n := by
  apply Nat.le_of_not_lt
  intro hlt
  obtain ⟨j, rfl⟩ : ∃ j, k = n + (j + 1) := ⟨k - n - 1, by omega⟩
  rw [after_add, h.after_eq, Option.bind_some, after, next?_eq_none_of_end? hend] at hr
  cases hr

end Walk

end Point

end FileChores
