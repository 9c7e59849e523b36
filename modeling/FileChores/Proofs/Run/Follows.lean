import FileChores.Proofs.Run.Points

/-!
# A run follows its points

The execution of a block under a limit goes through the points of the run without one, up to the
first point at which some loop starts one iteration too many. There it stops; without such a point
it ends as the points end, or is given up in a loop when its patience is spent.
-/

namespace FileChores

open Run

variable {σ : Type} {α β : Type}

def Setting.unbounded (s : Setting σ) : Setting σ :=
  s.files.unbounded s.limits.maxWait

namespace Run

def Uncut (x : Run σ α) : Prop :=
  ∀ m halt m', result x m = (.error halt, m') → halt.isCut = false

theorem Uncut.bind {x : Run σ α} {f : α → Run σ β} (h : Uncut x) (hf : ∀ a, Uncut (f a)) :
    Uncut (x >>= f) := by
  intro m halt m' hresult
  rcases hx : result x m with ⟨halt' | a, m''⟩
  · rw [result_bind_error hx] at hresult
    cases hresult
    exact h m halt m' hx
  · rw [result_bind_ok hx] at hresult
    exact hf a m'' halt m' hresult

theorem Uncut.of_ok {x : Run σ α} (h : ∀ m, ∃ a m', result x m = (.ok a, m')) : Uncut x := by
  intro m halt m' hresult
  obtain ⟨a, m'', hm⟩ := h m
  rw [hm] at hresult
  cases hresult

theorem uncut_fault {e : Fault} (h : e.isLoopLimit = false) : Uncut (fault e : Run σ α) := by
  intro m halt m' hresult
  rw [result_fault] at hresult
  cases hresult
  exact h

theorem uncut_congruence (s : Setting σ) : Congruence id (fun x _ => Uncut x) s s where
  maxWait := rfl
  pure _ := .of_ok fun _ => ⟨_, _, rfl⟩
  bind := Uncut.bind
  fault := uncut_fault
  record _ _ := .of_ok fun _ => ⟨_, _, rfl⟩
  print _ _ := .of_ok fun _ => ⟨_, _, rfl⟩
  printError _ _ := .of_ok fun _ => ⟨_, _, rfl⟩
  lookup _ := .of_ok fun _ => ⟨_, _, rfl⟩
  assign _ _ := .of_ok fun _ => ⟨_, _, rfl⟩
  enter _ := .of_ok fun _ => ⟨_, _, rfl⟩
  ask _ := .of_ok fun _ => ⟨_, _, rfl⟩

theorem unbounded_congruence (s : Setting σ) : Congruence id Eq s s.unbounded :=
  eq_congruence rfl rfl

def Returns (kind : α → Prop) (x : Run σ α) : Prop :=
  ∀ m a m', result x m = (.ok a, m') → kind a

theorem Returns.pure {kind : α → Prop} {a : α} (h : kind a) : Returns kind (pure a : Run σ α) := by
  intro m b m' hresult
  rw [result_pure] at hresult
  cases hresult
  exact h

theorem Returns.bind {kind : β → Prop} (x : Run σ α) {f : α → Run σ β}
    (h : ∀ a, Returns kind (f a)) : Returns kind (x >>= f) := by
  intro m b m' hresult
  rcases hx : result x m with ⟨halt | a, m''⟩
  · rw [result_bind_error hx] at hresult
    cases hresult
  · rw [result_bind_ok hx] at hresult
    exact h a m'' b m' hresult

end Run

namespace Pending

def run (s : Setting σ) : Pending → Run σ Unit
  | statements block => executeBlock s block
  | loop condition body pos done =>
      iterate s.limits.maxIterations pos (test s condition) (executeBlock s body)
        (s.patience - done) done
  | iteration condition body pos done => do
      checkLimit s.limits.maxIterations pos done
      executeBlock s body
      iterate s.limits.maxIterations pos (test s condition) (executeBlock s body)
        (s.patience - (done + 1)) (done + 1)

def runAll (s : Setting σ) : List Pending → Run σ Unit
  | [] => return
  | task :: rest => do
      run s task
      runAll s rest

theorem uncut_step (s : Setting σ) (task : Pending) : Uncut (task.step s.unbounded) := by
  have c := uncut_congruence s.unbounded
  have returns (tasks : List Pending) : Uncut (pure tasks : Run σ _) := c.pure tasks
  have simple {first : Statement} (hfirst : first.isSimple = true) (tasks : List Pending) :
      Uncut (execute s.unbounded first >>= fun _ => pure tasks) :=
    (c.execute_simple hfirst).bind fun _ => returns tasks
  cases task with
  | statements block =>
      cases block with
      | nil => exact returns []
      | cons first rest =>
          cases first with
          | declare | assign | call => exact simple rfl _
          | branch condition thenBlock elseBlock pos =>
              refine (c.enter pos).bind fun _ => (c.test condition).bind fun result => ?_
              cases result with
              | true => exact returns _
              | false => exact returns _
          | loop condition body pos => exact (c.enter pos).bind fun _ => returns _
  | loop condition body pos done =>
      apply (c.test condition).bind
      intro result
      cases result with
      | true => exact returns _
      | false => exact (c.record (.loopFinished done pos) rfl).bind fun _ => returns _
  | iteration condition body pos done => exact returns _

theorem runAll_append (s : Setting σ) (tasks more : List Pending) :
    runAll s (tasks ++ more) = runAll s tasks >>= fun _ => runAll s more := by
  induction tasks with
  | nil => rfl
  | cons task rest ih => rw [List.cons_append, runAll, runAll, ih, bind_assoc]

theorem runAll_singleton (s : Setting σ) (task : Pending) : runAll s [task] = run s task :=
  bind_pure_unit

end Pending

namespace Point

/-- No loop starts an iteration that the limit forbids. -/
def Quiet (s : Setting σ) (p : Point σ) : Prop :=
  ∀ limit ∈ s.limits.maxIterations, ∀ pos, ¬ p.Starts limit pos

inductive Stops (s : Setting σ) (q : Point σ) : Halt → Machine σ → Prop
  | fault {e : Fault} {m : Machine σ} : e.isLoopLimit = false →
      q.end? s.unbounded = some (.error (.fault e), m) → Stops s q (.fault e) m
  | limit {limit : Nat} {pos : Position} : limit ∈ s.limits.maxIterations → q.Starts limit pos →
      Stops s q (.fault (.loopLimit limit pos))
        { q.machine with trace := q.machine.trace.push (.loopLimitReached limit pos) }
  | unfinished {condition : Condition} {body : List Statement} {pos : Position}
      {rest : List Pending} : (∀ limit ∈ s.limits.maxIterations, s.patience ≤ limit) →
      q.tasks = .loop condition body pos s.patience :: rest → Stops s q .unfinished q.machine

/-- The result of a run whose points begin at `p` and, when it comes so far, go on with `tasks`. -/
def Ends (s : Setting σ) (tasks : List Pending) (p : Point σ) :
    Except Halt Unit × Machine σ → Prop
  | (.ok (), m) => ∃ n, Walk s.unbounded (Quiet s) n p ⟨tasks, m⟩
  | (.error halt, m) => ∃ n q, Walk s.unbounded (Quiet s) n p q ∧ Stops s q halt m

theorem Ends.walk {s : Setting σ} {tasks : List Pending} {n : Nat} {p q : Point σ}
    {ending : Except Halt Unit × Machine σ} (h : Walk s.unbounded (Quiet s) n p q)
    (hends : Ends s tasks q ending) : Ends s tasks p ending := by
  obtain ⟨halt | _, m⟩ := ending
  · obtain ⟨k, r, hr, hstops⟩ := hends
    exact ⟨n + k, r, h.trans hr, hstops⟩
  · obtain ⟨k, hk⟩ := hends
    exact ⟨n + k, h.trans hk⟩

end Point

open Pending Point

/-- Running the tasks goes through their points, whatever is to be done behind them. -/
def Follows (s : Setting σ) (tasks : List Pending) : Prop :=
  ∀ rest m, Ends s rest ⟨tasks ++ rest, m⟩ (result (runAll s tasks) m)

namespace Follows

variable {s : Setting σ}

theorem nil : Follows s [] :=
  fun rest m => ⟨0, .stay ⟨rest, m⟩⟩

theorem append {tasks more : List Pending} (h : Follows s tasks) (hmore : Follows s more) :
    Follows s (tasks ++ more) := by
  intro rest m
  rw [runAll_append, List.append_assoc]
  have hm := h (more ++ rest) m
  rcases hx : result (runAll s tasks) m with ⟨halt | _, m'⟩ <;> rw [hx] at hm
  · rw [result_bind_error hx]
    exact hm
  · rw [result_bind_ok hx]
    obtain ⟨n, hn⟩ := hm
    exact .walk hn (hmore rest m')

/-- It is enough to follow what the first step of a task leaves to be done. -/
theorem of_step {task : Pending} (hrun : task.run s = task.step s.unbounded >>= runAll s)
    (hquiet : ∀ rest m, Quiet s ⟨task :: rest, m⟩)
    (hnext : Returns (Follows s) (task.step s.unbounded)) : Follows s [task] := by
  intro rest m
  rw [runAll_singleton, hrun]
  rcases hx : result (task.step s.unbounded) m with ⟨halt | tasks, m'⟩
  · rw [result_bind_error hx]
    refine ⟨0, ⟨task :: rest, m⟩, .stay _, ?_⟩
    have hend : end? s.unbounded ⟨task :: rest, m⟩ = some (.error halt, m') := by
      simp only [end?, hx]
    have hcut := uncut_step s task m halt m' hx
    cases halt with
    | fault e => exact .fault hcut hend
    | unfinished => cases hcut
  · rw [result_bind_ok hx]
    have hnext? : next? s.unbounded ⟨task :: rest, m⟩ = some ⟨tasks ++ rest, m'⟩ := by
      simp only [next?, hx]
    exact .walk (.step (hquiet rest m) hnext? (.stay _)) (hnext m tasks m' hx rest m')

theorem quiet_statements (block : List Statement) (rest : List Pending) (m : Machine σ) :
    Quiet s ⟨.statements block :: rest, m⟩ := by
  rintro limit - pos ⟨condition, body, rest', h⟩
  cases h

theorem iteration {condition : Condition} {body : List Statement} (pos : Position) {done : Nat}
    (hbody : Follows s [.statements body])
    (hloop : (∀ limit ∈ s.limits.maxIterations, done < limit) →
      Follows s [.loop condition body pos (done + 1)])
    (hdone : ∀ limit ∈ s.limits.maxIterations, done ≤ limit) :
    Follows s [.iteration condition body pos done] := by
  rcases limit_le_or_lt s.limits.maxIterations done with ⟨limit, hlimit, hle⟩ | hlt
  · obtain rfl : done = limit := Nat.le_antisymm (hdone limit hlimit) hle
    intro rest m
    rw [runAll_singleton, Pending.run, hlimit, result_bind_error (checkLimit_of_le pos hle m)]
    exact ⟨0, ⟨.iteration condition body pos done :: rest, m⟩, .stay _,
      .limit hlimit ⟨condition, body, rest, rfl⟩⟩
  · refine of_step ?_ ?_ ?_
    · rw [Pending.run, checkLimit_of_lt pos hlt, pure_bind, Pending.step, pure_bind, runAll,
        runAll_singleton]
      rfl
    · rintro rest m limit hlimit pos' ⟨condition', body', rest', h⟩
      cases h
      exact Nat.lt_irrefl _ (hlt _ hlimit)
    · exact .pure (hbody.append (hloop hlt))

theorem loop {condition : Condition} {body : List Statement} (pos : Position)
    (hbody : Follows s [.statements body]) (patience : Nat) {done : Nat}
    (hpatience : done + patience = s.patience)
    (hdone : ∀ limit ∈ s.limits.maxIterations, done ≤ limit) :
    Follows s [.loop condition body pos done] := by
  induction patience generalizing done with
  | zero =>
      intro rest m
      obtain rfl : done = s.patience := by omega
      rw [runAll_singleton, Pending.run, Nat.sub_self]
      exact ⟨0, ⟨.loop condition body pos s.patience :: rest, m⟩, .stay _, .unfinished hdone rfl⟩
  | succ patience ih =>
      have hnext : Follows s [.iteration condition body pos done] :=
        .iteration pos hbody (fun hlt => ih (by omega) hlt) hdone
      refine of_step ?_ ?_ ?_
      · rw [Pending.run, Pending.step, show s.patience - done = patience + 1 by omega, iterate,
          bind_assoc, ← (unbounded_congruence s).test condition]
        apply bind_congr
        intro result
        cases result with
        | true =>
            rw [if_pos rfl, if_pos rfl, pure_bind, runAll_singleton, Pending.run,
              show s.patience - (done + 1) = patience by omega]
        | false =>
            rw [if_neg Bool.false_ne_true, if_neg Bool.false_ne_true, bind_assoc]
            exact bind_pure_unit.symm
      · rintro rest m limit - pos' ⟨condition', body', rest', h⟩
        cases h
      · refine .bind _ fun result => ?_
        cases result with
        | true => exact .pure hnext
        | false => exact .bind _ fun _ => .pure nil

theorem executeElse_eq (s : Setting σ) (elseBlock : Option (List Statement)) :
    executeElse s elseBlock = executeBlock s (elseBlock.getD []) := by
  cases elseBlock with
  | none => rw [executeElse, Option.getD_none, executeBlock]
  | some statements => rw [executeElse, Option.getD_some]

theorem simple {first : Statement} {rest : List Statement}
    (hstep : Pending.step s.unbounded (.statements (first :: rest)) =
      execute s.unbounded first >>= fun _ => pure [.statements rest])
    (hsame : execute s first = execute s.unbounded first) (hrest : Follows s [.statements rest]) :
    Follows s [.statements (first :: rest)] := by
  refine of_step ?_ (quiet_statements _) ?_
  · rw [hstep, ← hsame, Pending.run, executeBlock, bind_assoc]
    apply bind_congr
    intro _
    rw [pure_bind, runAll_singleton, Pending.run]
  · rw [hstep]
    exact .bind _ fun _ => .pure hrest

mutual

theorem statement (s : Setting σ) (first : Statement) {rest : List Statement}
    (hrest : Follows s [.statements rest]) : Follows s [.statements (first :: rest)] := by
  have c := unbounded_congruence s
  cases first with
  | declare | assign | call => exact simple rfl (c.execute_simple rfl) hrest
  | branch condition thenBlock elseBlock pos =>
      refine of_step ?_ (quiet_statements _) ?_
      · rw [Pending.run, executeBlock, execute, Pending.step, c.test condition]
        simp only [bind_assoc]
        refine bind_congr fun _ => bind_congr fun result => ?_
        cases result with
        | true =>
            rw [if_pos rfl, if_pos rfl, pure_bind, runAll, runAll_singleton]
            rfl
        | false =>
            rw [if_neg Bool.false_ne_true, if_neg Bool.false_ne_true, pure_bind, runAll,
              runAll_singleton, executeElse_eq]
            rfl
      · refine .bind _ fun _ => .bind _ fun result => ?_
        cases result with
        | true => exact .pure ((block s thenBlock).append hrest)
        | false => exact .pure ((alternative s elseBlock).append hrest)
  | loop condition body pos =>
      have hloop : Follows s [.loop condition body pos 0] :=
        loop pos (block s body) s.patience (Nat.zero_add _) fun _ _ => Nat.zero_le _
      refine of_step ?_ (quiet_statements _) (.bind _ fun _ => .pure (hloop.append hrest))
      rw [Pending.run, executeBlock, execute, Pending.step, bind_assoc, bind_assoc]
      apply bind_congr
      intro _
      rw [pure_bind, runAll, runAll_singleton]
      rfl

theorem block (s : Setting σ) (statements : List Statement) :
    Follows s [.statements statements] := by
  cases statements with
  | nil =>
      refine of_step ?_ (quiet_statements _) (.pure nil)
      rw [Pending.run, executeBlock]
      rfl
  | cons first rest => exact statement s first (block s rest)

theorem alternative (s : Setting σ) (elseBlock : Option (List Statement)) :
    Follows s [.statements (elseBlock.getD [])] := by
  cases elseBlock with
  | none => exact block s []
  | some statements => exact block s statements

end

end Follows

/-! ## Iterations and steps -/

def Pending.made : Pending → Nat
  | statements _ => 0
  | loop _ _ _ done | iteration _ _ _ done => done

def Pending.madeNext : Pending → Nat
  | statements _ => 0
  | loop _ _ _ done => done
  | iteration _ _ _ done => done + 1

theorem Pending.madeNext_le (task : Pending) : task.madeNext ≤ task.made + 1 := by
  cases task <;> simp [madeNext, made]

theorem Pending.made_step (task : Pending) (setting : Setting σ) :
    Returns (fun tasks => ∀ later ∈ tasks, later.made ≤ task.madeNext) (task.step setting) := by
  cases task with
  | statements block =>
      cases block with
      | nil => exact .pure (by simp)
      | cons first rest =>
          cases first with
          | branch condition thenBlock elseBlock pos =>
              refine .bind _ fun _ => .bind _ fun result => ?_
              cases result <;> exact .pure (by simp [made])
          | _ => exact .bind _ fun _ => .pure (by simp [made])
  | loop condition body pos done =>
      refine .bind _ fun result => ?_
      cases result with
      | true => exact .pure (by simp [made, madeNext])
      | false => exact .bind _ fun _ => .pure (by simp)
  | iteration condition body pos done => exact .pure (by simp [made, madeNext])

/-- What holds of the tasks at a point, and of those that its first task leaves to be done, holds of
the tasks at the next point. -/
theorem Point.forall_next? {setting : Setting σ} {p q : Point σ} {kind : Pending → Prop}
    (h : p.next? setting = some q) (hp : ∀ task ∈ p.tasks, kind task)
    (hstep : ∀ task ∈ p.tasks.head?,
      Returns (fun tasks => ∀ later ∈ tasks, kind later) (task.step setting)) :
    ∀ task ∈ q.tasks, kind task := by
  obtain ⟨task, rest, later, m, htasks, hresult, rfl⟩ := exists_of_next? h
  rw [htasks] at hp hstep
  rw [List.forall_mem_cons] at hp
  intro other hother
  rcases List.mem_append.1 hother with hother | hother
  · exact hstep task rfl p.machine later m hresult other hother
  · exact hp.2 other hother

theorem Point.made_next? {setting : Setting σ} {p q : Point σ} {n : Nat}
    (h : p.next? setting = some q) (hp : ∀ task ∈ p.tasks, task.made ≤ n)
    (hnext : ∀ task ∈ p.tasks.head?, task.madeNext ≤ n) : ∀ task ∈ q.tasks, task.made ≤ n := by
  apply forall_next? h hp
  intro task htask m tasks m' hresult later hlater
  exact Nat.le_trans (task.made_step setting m tasks m' hresult later hlater) (hnext task htask)

theorem Point.made_after {setting : Setting σ} {k : Nat} {p q : Point σ} {n : Nat}
    (h : after setting k p = some q) (hp : ∀ task ∈ p.tasks, task.made ≤ n) :
    ∀ task ∈ q.tasks, task.made ≤ n + k := by
  induction k generalizing p n with
  | zero => cases h; exact hp
  | succ k ih =>
      obtain ⟨r, hr, hq⟩ := Option.bind_eq_some_iff.1 h
      rw [Nat.add_comm k, ← Nat.add_assoc]
      refine ih hq (made_next? hr (fun task htask => Nat.le_succ_of_le (hp task htask)) ?_)
      intro task htask
      have hmade := hp task (List.mem_of_mem_head? htask)
      have hnext := task.madeNext_le
      omega

end FileChores
