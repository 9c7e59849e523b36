import FileChores.FileSystem.Scripted
import FileChores.Proofs.Run.Standing

/-!
# The statement that failed

A run that was aborted stands at the statement that failed, unless that is a loop that has been
through its body: its condition is evaluated again where the body has left the run.
-/

namespace FileChores

open Run

variable {σ : Type}

/-! ## Loops that have been through their body -/

def StandsIn (here : Position) (block : List Statement) : Prop :=
  ∃ inner : Statement, inner.Inside block ∧ inner.pos = here

theorem StandsIn.cons {here : Position} {first : Statement} {rest : List Statement}
    (h : StandsIn here rest) : StandsIn here (first :: rest) := by
  obtain ⟨inner, hinside, hpos⟩ := h
  exact ⟨inner, hinside.mono (List.subset_cons_self _ _), hpos⟩

namespace Pending

/-- Whether a task that begins `here` may end `there`. -/
def Leaves (here there : Position) : Pending → Prop
  | statements block => (block = [] ∧ there = here) ∨ StandsIn there block
  | loop _ body _ _ | iteration _ body _ _ => there = here ∨ StandsIn there body

/-- A loop stands at its own place until it has been through a body with statements, and then at one
of those. -/
def Fits (here : Position) : Pending → Prop
  | statements _ => True
  | loop _ body pos done | iteration _ body pos done =>
      (done = 0 ∨ body = [] → here = pos) ∧ (done ≠ 0 → body ≠ [] → StandsIn here body)

/-- The tasks can begin `here` and end at a place of the given kind. -/
def Placed (kind : Position → Prop) (here : Position) : List Pending → Prop
  | [] => kind here
  | task :: rest => task.Fits here ∧ ∀ there, task.Leaves here there → Placed kind there rest

theorem Placed.append {kind kind' : Position → Prop} {here : Position} {tasks rest : List Pending}
    (h : Placed kind here tasks) (hrest : ∀ there, kind there → Placed kind' there rest) :
    Placed kind' here (tasks ++ rest) := by
  induction tasks generalizing here with
  | nil => exact hrest here h
  | cons task tasks ih => exact ⟨h.1, fun there hthere => ih (h.2 there hthere)⟩

theorem standsIn_of_leaves {here there : Position} {block : List Statement}
    {rest : List Statement} {first : Statement} (h : (statements block).Leaves here there)
    (hhere : StandsIn here (first :: rest))
    (hblock : StandsIn there block → StandsIn there (first :: rest)) :
    StandsIn there (first :: rest) := by
  rcases h with ⟨-, rfl⟩ | h
  · exact hhere
  · exact hblock h

theorem placed_rest {here start : Position} {first : Statement} {rest : List Statement}
    (hstart : StandsIn start (first :: rest)) :
    Placed ((statements (first :: rest)).Leaves here ·) start [statements rest] :=
  ⟨trivial, fun _ h => .inr (standsIn_of_leaves h hstart .cons)⟩

/-- A step of a task puts others in its place that end where it may end. -/
theorem placed_step (s : Setting σ) {task : Pending} {here : Position} (h : task.Fits here) :
    Returns (Placed (task.Leaves here ·) (task.moved here)) (task.step s) := by
  cases task with
  | statements block =>
      cases block with
      | nil => exact .pure (.inl ⟨rfl, rfl⟩)
      | cons first rest =>
          have hfirst : StandsIn first.pos (first :: rest) := ⟨first, .member (.head _), rfl⟩
          cases first with
          | branch condition thenBlock elseBlock pos =>
              refine .bind _ fun _ => .bind _ fun result => ?_
              cases result with
              | true =>
                  refine .pure ⟨trivial, fun there hthere => placed_rest ?_⟩
                  refine standsIn_of_leaves hthere hfirst ?_
                  rintro ⟨inner, hinside, hpos⟩
                  exact ⟨inner, .thenBlock (.head _) hinside, hpos⟩
              | false =>
                  refine .pure ⟨trivial, fun there hthere => placed_rest ?_⟩
                  refine standsIn_of_leaves hthere hfirst ?_
                  rintro ⟨inner, hinside, hpos⟩
                  cases elseBlock with
                  | none => exact absurd hinside (Statement.not_inside_nil inner)
                  | some elseBlock => exact ⟨inner, .elseBlock (.head _) hinside, hpos⟩
          | loop condition body pos =>
              have hfits : (Pending.loop condition body pos 0).Fits pos :=
                ⟨fun _ => rfl, fun hdone => absurd rfl hdone⟩
              refine .bind _ fun _ => .pure ⟨hfits, fun there hthere => placed_rest ?_⟩
              rcases hthere with rfl | ⟨inner, hinside, hpos⟩
              · exact hfirst
              · exact ⟨inner, .body (.head _) hinside, hpos⟩
          | _ => exact .bind _ fun _ => .pure (placed_rest hfirst)
  | loop condition body pos done =>
      refine .bind _ fun result => ?_
      cases result with
      | true => exact .pure ⟨h, fun _ hthere => hthere⟩
      | false => exact .bind _ fun _ => .pure (.inl rfl)
  | iteration condition body pos done =>
      refine .pure ⟨trivial, fun mid hmid => ⟨⟨?_, ?_⟩, ?_⟩⟩
      · rintro (hdone | rfl)
        · cases hdone
        · rcases hmid with ⟨-, rfl⟩ | ⟨inner, hinside, -⟩
          · exact h.1 (.inr rfl)
          · exact absurd hinside inner.not_inside_nil
      · intro _ hbody
        exact hmid.resolve_left fun hnil => hbody hnil.1
      · rintro there (rfl | hthere)
        · exact hmid.imp And.right id
        · exact .inr hthere

inductive Repeats (body : List Statement) : Pending → Prop
  | loop {condition : Condition} {pos : Position} {done : Nat} : body ≠ [] → done ≠ 0 →
      Repeats body (.loop condition body pos done)
  | iteration {condition : Condition} {pos : Position} {done : Nat} : body ≠ [] → done ≠ 0 →
      Repeats body (.iteration condition body pos done)

theorem moved_eq_of_fits {task : Pending} {here : Position} {failing : Statement}
    (h : task.Fits here) (hfailing : task.statement? = some failing)
    (hfirst : ∀ body, ¬ task.Repeats body) : task.moved here = failing.pos := by
  cases task with
  | statements block =>
      cases block with
      | nil => cases hfailing
      | cons first rest => cases hfailing; rfl
  | loop condition body pos done =>
      cases hfailing
      refine h.1 (Classical.or_iff_not_imp_left.2 fun hdone => ?_)
      exact Classical.byContradiction fun hbody => hfirst body (.loop hbody hdone)
  | iteration condition body pos done =>
      cases hfailing
      refine h.1 (Classical.or_iff_not_imp_left.2 fun hdone => ?_)
      exact Classical.byContradiction fun hbody => hfirst body (.iteration hbody hdone)

theorem standsIn_of_repeats {task : Pending} {here : Position} {body : List Statement}
    (h : task.Fits here) (hrepeats : task.Repeats body) : StandsIn (task.moved here) body := by
  cases hrepeats with
  | loop hbody hdone => exact h.2 hdone hbody
  | iteration hbody hdone => exact h.2 hdone hbody

end Pending

/-! ## Whole runs -/

namespace Point

variable {s : Setting σ} {p q : Point σ}

open Pending

theorem placed_next? {kind : Position → Prop} (h : p.next? s = some q)
    (hp : Placed kind p.machine.pos p.tasks) : Placed kind q.machine.pos q.tasks := by
  rw [pos_next? h]
  obtain ⟨task, rest, later, m, htasks, hresult, rfl⟩ := exists_of_next? h
  rw [htasks] at hp
  have hlater := (placed_step s hp.1 p.machine later m hresult).append hp.2
  simpa [moved, htasks] using hlater

/-- A run that stops with a fault stops in the step of some statement. -/
theorem Stops.exists_failing {fault : Fault} {m : Machine σ} (h : Stops s p (.fault fault) m) :
    ∃ task rest failing, p.tasks = task :: rest ∧ task.statement? = some failing ∧
      m.pos = task.moved p.machine.pos := by
  obtain ⟨tasks, m'⟩ := p
  cases h with
  | fault _ hend =>
      have hpos := pos_end? hend
      cases tasks with
      | nil => cases hend
      | cons task rest =>
          cases hfailing : task.statement? with
          | none =>
              cases task with
              | statements block =>
                  cases block with
                  | nil => cases hend
                  | cons => cases hfailing
              | loop => cases hfailing
              | iteration => cases hfailing
          | some failing => exact ⟨task, rest, failing, rfl, hfailing, hpos⟩
  | limit _ hstarts =>
      obtain ⟨condition, body, rest, htasks⟩ := hstarts
      exact ⟨_, rest, _, htasks, rfl, rfl⟩

end Point

namespace Program

open Point

variable (system : FileSystem σ) (program : Program) (files : σ)

theorem placed_point (wait : Option Nat) {n : Nat} {p : Point σ}
    (h : program.point system wait files n = some p) :
    Pending.Placed (fun _ => True) p.machine.pos p.tasks := by
  induction n generalizing p with
  | zero => cases h; exact ⟨trivial, fun _ _ => trivial⟩
  | succ n ih =>
      rw [point_succ] at h
      obtain ⟨q, hq, hnext⟩ := Option.bind_eq_some_iff.1 h
      exact placed_next? hnext (ih hq)

/-- After a run the position is that of the statement started last. If the run was aborted, this is
the statement that failed, unless that is a loop that has been through its body: then the position
is that of a statement in the body. -/
theorem run_pos (limits : Limits) :
    ((program.run system limits files).1 = .finished → ∃ n p,
      program.point system limits.maxWait files n = some p ∧ p.tasks = [] ∧
      (program.run system limits files).2.pos =
        program.lastStarted system limits.maxWait files n) ∧
    ∀ fault, (program.run system limits files).1 = .aborted fault → ∃ n p m task rest failing,
      program.point system limits.maxWait files n = some p ∧
      Stops (limits.setting system) p (.fault fault) m ∧
      p.tasks = task :: rest ∧ task.statement? = some failing ∧
      (program.run system limits files).2.pos =
        program.lastStarted system limits.maxWait files (n + 1) ∧
      ((∀ body, ¬ task.Repeats body) → (program.run system limits files).2.pos = failing.pos) ∧
      ∀ body, task.Repeats body → StandsIn (program.run system limits files).2.pos body := by
  have hends := ends_points program files (limits.setting system)
  rw [run, runWith_eq, conclude_pos]
  rcases hr : result _ (program.start files) with ⟨halt | _, m⟩ <;> rw [hr] at hends
  · refine ⟨fun h => ?_, fun fault h => ?_⟩
    · rcases halt with fault | _ <;> cases h
    rcases halt with fault' | _ <;> cases h
    obtain ⟨n, p, hwalk, hstops⟩ := hends
    have hpoint : program.point system limits.maxWait files n = some p := hwalk.after_eq
    obtain ⟨task, rest, failing, htasks, hfailing, hpos⟩ := hstops.exists_failing
    have hfits : task.Fits p.machine.pos := by
      have hplaced := placed_point system program files limits.maxWait hpoint
      rw [htasks] at hplaced
      exact hplaced.1
    refine ⟨n, p, m, task, rest, failing, hpoint, hstops, htasks, hfailing, ?_, ?_, ?_⟩
    · rw [lastStarted, hpoint, hpos, pos_point system limits.maxWait program files hpoint]
      simp only [Point.moved, htasks, List.head?_cons, Option.map_some, Option.getD_some]
    · exact fun hfirst => hpos.trans (Pending.moved_eq_of_fits hfits hfailing hfirst)
    · intro body hrepeats
      change StandsIn m.pos body
      rw [hpos]
      exact Pending.standsIn_of_repeats hfits hrepeats
  · refine ⟨fun _ => ?_, fun fault h => by cases h⟩
    obtain ⟨n, hwalk⟩ := hends
    have hpoint : program.point system limits.maxWait files n = some ⟨[], m⟩ := hwalk.after_eq
    exact ⟨n, ⟨[], m⟩, hpoint, rfl, pos_point system limits.maxWait program files hpoint⟩

def endless : Program :=
  ⟨[.loop ⟨.number 1 ⟨1, 7⟩, .equal, .number 1 ⟨1, 12⟩, ⟨1, 7⟩⟩
    [.declare "x" (.number 1 ⟨1, 24⟩) ⟨1, 16⟩] ⟨1, 3⟩]⟩

/-- A loop that is stopped at its limit leaves the run in its body. -/
theorem endless_stands_in_body :
    (endless.run Scripted.fileSystem ⟨some 1, none⟩ (.ofResponses [])).1 =
      .aborted (.loopLimit 1 ⟨1, 3⟩) ∧
    (endless.run Scripted.fileSystem ⟨some 1, none⟩ (.ofResponses [])).2.pos ≠ ⟨1, 3⟩ := by
  have hpos : (endless.run Scripted.fileSystem ⟨some 1, none⟩ (.ofResponses [])).2.pos =
      ⟨1, 16⟩ := rfl
  refine ⟨rfl, ?_⟩
  rw [hpos]
  decide

end Program

end FileChores
