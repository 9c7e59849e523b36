import FileChores.Proofs.Run.Declaring
import FileChores.Proofs.Run.Turns

/-!
# A loop and its first iteration

A loop without a limit does what a branch does that runs the body once and then the loop again. A
run that is given up says nothing of what it would have come to, so either both are given up with
every patience, or with enough of it both come to the same.
-/

namespace FileChores

open Run

variable {σ α β : Type}

namespace Run

/-- From like machines the first run is given up, or both come to the same. -/
def Awaits (x y : Run σ α) : Prop :=
  ∀ m m', m.Like m' → (result x m).1 = .error .unfinished ∨
    (result x m).1 = (result y m').1 ∧ (result x m).2.Like (result y m').2

theorem Awaits.of_alike {x y : Run σ α} (h : Alike x y) : Awaits x y :=
  fun m m' hm => .inr ⟨(h m m' hm).result_eq.symm, (h m m' hm).machines⟩

theorem Awaits.bind {x y : Run σ α} {f g : α → Run σ β} (h : Awaits x y)
    (hf : ∀ a, Awaits (f a) (g a)) : Awaits (x >>= f) (y >>= g) := by
  intro m m' hm
  have hmm := h m m' hm
  rcases hx : result x m with ⟨halt | a, n⟩ <;> rw [hx] at hmm
  · rw [result_bind_error hx]
    refine hmm.imp (fun hgiven => by cases hgiven; rfl) fun ⟨hresult, hlike⟩ => ?_
    rcases hy : result y m' with ⟨halt' | a, n'⟩ <;> rw [hy] at hresult hlike <;> cases hresult
    rw [result_bind_error hy]
    exact ⟨rfl, hlike⟩
  · rw [result_bind_ok hx]
    rcases hmm with hgiven | ⟨hresult, hlike⟩
    · cases hgiven
    · rcases hy : result y m' with ⟨halt' | a', n'⟩ <;> rw [hy] at hresult hlike <;> cases hresult
      rw [result_bind_ok hy]
      exact hf a n n' hlike

section

variable (system : FileSystem σ) (limits : Limits)

theorem awaits_congruence (patience patience' : Nat) :
    Congruence id Awaits ⟨system, limits, patience⟩ ⟨system, limits, patience'⟩ :=
  have c := alike_congruence ⟨system, limits, patience⟩
  { maxWait := rfl
    pure := fun a => .of_alike (c.pure a)
    bind := Awaits.bind
    fault := fun h => .of_alike (c.fault h)
    record := fun event h => .of_alike (c.record event h)
    print := fun text pos => .of_alike (c.print text pos)
    printError := fun text pos => .of_alike (c.printError text pos)
    lookup := fun name => .of_alike (c.lookup name)
    ask := fun request => .of_alike (c.ask request)
    assign := fun name value => .of_alike (c.assign name value)
    enter := fun pos => .of_alike (c.enter pos) }

end

/-- A loop counts for its trace alone. -/
theorem awaits_iterate {condition condition' : Run σ Bool} {body body' : Run σ Unit}
    (hcondition : Awaits condition condition') (hbody : Awaits body body') (pos pos' : Position)
    {patience patience' : Nat} (hpatience : patience ≤ patience') (done done' : Nat) :
    Awaits (iterate none pos condition body patience done)
      (iterate none pos' condition' body' patience' done') := by
  induction patience generalizing patience' done done' with
  | zero => exact fun _ _ _ => .inl rfl
  | succ patience ih =>
      obtain ⟨patience', rfl⟩ : ∃ k, patience' = k + 1 := ⟨patience' - 1, by omega⟩
      rw [iterate, iterate]
      refine hcondition.bind fun holds => ?_
      cases holds with
      | true =>
          exact hbody.bind fun _ => ih (by omega) (done + 1) (done' + 1)
      | false => exact .of_alike (alike_record _ _)

theorem executeBlock_snoc (s : Setting σ) (block : List Statement) (last : Statement) :
    executeBlock s (block ++ [last]) = executeBlock s block >>= fun _ => execute s last := by
  induction block with
  | nil =>
      rw [List.nil_append, executeBlock, executeBlock, pure_bind]
      simp [executeBlock]
  | cons first rest ih => rw [List.cons_append, executeBlock, executeBlock, ih, bind_assoc]

section

variable (system : FileSystem σ) (wait : Option Nat)

theorem awaits_loops {patience patience' : Nat} (hpatience : patience ≤ patience') :
    Loops id Awaits ⟨system, ⟨none, wait⟩, patience⟩ ⟨system, ⟨none, wait⟩, patience'⟩ :=
  fun pos _ _ _ _ hcondition hbody => awaits_iterate hcondition hbody pos pos hpatience 0 0

theorem awaits_execute {patience patience' : Nat} (hpatience : patience ≤ patience')
    (statement : Statement) : Awaits (execute ⟨system, ⟨none, wait⟩, patience⟩ statement)
      (execute ⟨system, ⟨none, wait⟩, patience'⟩ statement) :=
  (awaits_congruence system _ patience patience').execute (awaits_loops system wait hpatience)
    statement

theorem awaits_executeBlock {patience patience' : Nat} (hpatience : patience ≤ patience')
    (block : List Statement) : Awaits (executeBlock ⟨system, ⟨none, wait⟩, patience⟩ block)
      (executeBlock ⟨system, ⟨none, wait⟩, patience'⟩ block) :=
  (awaits_congruence system _ patience patience').executeBlock
    (awaits_loops system wait hpatience) block

end

end Run

def Statement.unfolded (condition : Condition) (body : List Statement) (pos inner : Position) :
    Statement :=
  .branch condition (body ++ [.loop condition body inner]) none pos

namespace Run

section

variable (system : FileSystem σ) (wait : Option Nat) (condition : Condition)
  (body : List Statement) (pos outer inner : Position) (patience : Nat)

/-- What is left of a loop after its first iteration is the loop, but for the count. -/
theorem awaits_unfolded :
    Awaits (execute ⟨system, ⟨none, wait⟩, patience⟩ (.loop condition body pos))
      (execute ⟨system, ⟨none, wait⟩, patience⟩ (.unfolded condition body outer inner)) := by
  cases patience with
  | zero => exact fun m m' h => .inl rfl
  | succ patience =>
      have c := awaits_congruence system ⟨none, wait⟩ (patience + 1) (patience + 1)
      have hbody := awaits_executeBlock system wait (Nat.le_refl (patience + 1)) body
      rw [Statement.unfolded, execute, execute, iterate]
      refine (Awaits.of_alike (alike_enter pos outer)).bind fun _ => ?_
      refine (c.test condition).bind fun holds => ?_
      cases holds with
      | false => exact .of_alike fun m m' h => ⟨rfl, h.environment, h.terminal, h.files⟩
      | true =>
          -- The loop has one iteration behind it, so it counts one more and is one less patient.
          rw [if_pos rfl, if_pos rfl, executeBlock_snoc, execute]
          refine hbody.bind fun _ => ?_
          have hrest := awaits_iterate (c.test condition) hbody pos inner
            (Nat.le_succ patience) 1 0
          exact fun m m' h => hrest m _ ⟨h.environment, h.terminal, h.files⟩

theorem unfolded_awaits :
    Awaits (execute ⟨system, ⟨none, wait⟩, patience⟩ (.unfolded condition body outer inner))
      (execute ⟨system, ⟨none, wait⟩, patience + 1⟩ (.loop condition body pos)) := by
  have c := awaits_congruence system ⟨none, wait⟩ patience (patience + 1)
  have hbody := awaits_executeBlock system wait (Nat.le_succ patience) body
  rw [Statement.unfolded, execute, execute, iterate]
  refine (Awaits.of_alike (alike_enter outer pos)).bind fun _ => ?_
  refine (c.test condition).bind fun holds => ?_
  cases holds with
  | false => exact .of_alike fun m m' h => ⟨rfl, h.environment, h.terminal, h.files⟩
  | true =>
      rw [if_pos rfl, if_pos rfl, executeBlock_snoc, execute]
      refine hbody.bind fun _ => ?_
      have hrest := awaits_iterate (c.test condition) hbody inner pos (Nat.le_refl patience) 0 1
      exact fun m m' h => hrest _ m' ⟨h.environment, h.terminal, h.files⟩

end

/-! ## The course of a loop -/

/-- How a loop without a limit may go from a machine on. After some iterations its condition fails,
or its condition or its body halts, or its patience is spent. -/
inductive Course (s : Setting σ) (condition : Condition) (body : List Statement) (pos : Position)
    (m : Machine σ) : Except Halt Unit × Machine σ → Prop
  | ended {n : Nat} {m₁ m' : Machine σ} : Turns s condition body n m m₁ →
      result (test s condition) m₁ = (.ok false, m') →
      Course s condition body pos m
        (.ok (), { m' with trace := m'.trace.push (.loopFinished n pos) })
  | condition {n : Nat} {m₁ m' : Machine σ} {halt : Halt} : Turns s condition body n m m₁ →
      result (test s condition) m₁ = (.error halt, m') →
      Course s condition body pos m (.error halt, m')
  | body {n : Nat} {m₁ m₂ m' : Machine σ} {halt : Halt} : Turns s condition body n m m₁ →
      result (test s condition) m₁ = (.ok true, m₂) →
      result (executeBlock s body) m₂ = (.error halt, m') →
      Course s condition body pos m (.error halt, m')
  | spent {m' : Machine σ} : Turns s condition body s.patience m m' →
      Course s condition body pos m (.error .unfinished, m')

variable {s : Setting σ} {condition : Condition} {body : List Statement} {pos : Position}

theorem course_iterate (hlimit : s.limits.maxIterations = none) {m₀ m : Machine σ}
    {patience done : Nat} (hturns : Turns s condition body done m₀ m)
    (hpatience : done + patience = s.patience) :
    Course s condition body pos m₀ (result (iterate none pos (test s condition)
      (executeBlock s body) patience done) m) := by
  induction patience generalizing done m with
  | zero =>
      rw [Nat.add_zero] at hpatience
      exact .spent (hpatience ▸ hturns)
  | succ patience ih =>
      rw [iterate]
      rcases htest : result (test s condition) m with ⟨halt | holds, m₁⟩
      · rw [result_bind_error htest]
        exact .condition hturns htest
      rw [result_bind_ok htest]
      cases holds with
      | false => exact .ended hturns htest
      | true =>
          have hallows : s.Allows done := fun limit h => by rw [hlimit] at h; cases h
          rw [if_pos rfl, checkLimit, pure_bind]
          rcases hbody : result (executeBlock s body) m₁ with ⟨halt | _, m₂⟩
          · rw [result_bind_error hbody]
            exact .body hturns htest hbody
          · rw [result_bind_ok hbody]
            exact ih (.turn hturns htest hallows hbody) (by omega)

theorem course_execute (hlimit : s.limits.maxIterations = none) (m : Machine σ) :
    ∃ m₀, result (enter pos) m = (.ok (), m₀) ∧
      Course s condition body pos m₀ (result (execute s (.loop condition body pos)) m) := by
  refine ⟨_, rfl, ?_⟩
  rw [execute, hlimit]
  exact course_iterate hlimit (.none _) (Nat.zero_add _)

/-- Without a limit, a loop and the branch that runs its body and then the loop again are both given
up with every patience, or with enough of it both come to the same end, with the same variables,
lines, requests and files. Before each iteration the condition is evaluated once, and once more
where the loop ends. -/
theorem execute_unfolds (system : FileSystem σ) (wait : Option Nat) (condition : Condition)
    (body : List Statement) (pos outer inner : Position) (m : Machine (σ × List Request)) :
    let s (patience : Nat) : Setting (σ × List Request) :=
      ⟨system.recorded, ⟨none, wait⟩, patience⟩
    let loop (patience : Nat) := result (execute (s patience) (.loop condition body pos)) m
    let unfolded (patience : Nat) :=
      result (execute (s patience) (.unfolded condition body outer inner)) m
    ((∀ patience, (loop patience).1 = .error .unfinished ∧
        (unfolded patience).1 = .error .unfinished) ∨
      ∃ (least : Nat) (ending : Except Halt Unit) (m' : Machine (σ × List Request)),
        ending ≠ .error .unfinished ∧ ∀ patience, least ≤ patience →
          (loop patience).1 = ending ∧ (unfolded patience).1 = ending ∧
            m'.Like (loop patience).2 ∧ m'.Like (unfolded patience).2) ∧
    ∀ patience, (∃ m₀, result (enter pos) m = (.ok (), m₀) ∧
        Course (s patience) condition body pos m₀ (loop patience)) ∧
      ∀ statement, result (execute ⟨system, ⟨none, wait⟩, patience⟩ statement) m.unrecorded =
        ((result (execute (s patience) statement) m).1,
          (result (execute (s patience) statement) m).2.unrecorded) := by
  intro s loop unfolded
  refine ⟨?_, fun patience => ⟨course_execute rfl m, fun statement => ?_⟩⟩
  · by_cases h : ∃ patience, (loop patience).1 ≠ .error .unfinished
    · obtain ⟨least, hleast⟩ := h
      refine .inr ⟨least, _, (loop least).2, hleast, fun patience hle => ?_⟩
      obtain ⟨hloop, hlike⟩ :=
        (awaits_execute system.recorded wait hle _ m m (.refl m)).resolve_left hleast
      have hended : (loop patience).1 ≠ .error .unfinished := hloop ▸ hleast
      obtain ⟨hunfolded, hlike'⟩ := (awaits_unfolded system.recorded wait condition body pos outer
        inner patience m m (.refl m)).resolve_left hended
      exact ⟨hloop.symm, hunfolded.symm.trans hloop.symm, hlike, hlike.trans hlike'⟩
    · have hloop := not_exists_not.1 h
      refine .inl fun patience => ⟨hloop patience, ?_⟩
      rcases unfolded_awaits system.recorded wait condition body pos outer inner patience m m
        (.refl m) with hgiven | ⟨hunfolded, -⟩
      · exact hgiven
      · exact hunfolded.trans (hloop (patience + 1))
  · have hrecorded : system.recorded.LooksLike Prod.fst system := fun _ _ => rfl
    have c := (seen_acts hrecorded).lockstep ⟨none, wait⟩ patience
    exact Seen.result_eq (c.execute statement fun _ _ _ _ => trivial) m

end Run

end FileChores
