import FileChores.Proofs.Run.Standing

/-!
# What a limit on loops allows

Under a limit every program comes to an end, whatever the file system answers. The limit and the
shape of the program alone bound the number of statements that are started, and the limit bounds the
iterations that an execution of a loop ever counts.
-/

namespace FileChores

open Run

variable {σ : Type} {α β : Type}

/-! ## The most that can be started -/

mutual

/-- The most statements that an execution of the statement starts under the limit. -/
def Statement.most (limit : Nat) : Statement → Nat
  | .declare _ _ _ | .assign _ _ _ | .call _ _ _ => 1
  | .branch _ thenBlock elseBlock _ =>
      1 + max (mostBlock limit thenBlock) (mostElse limit elseBlock)
  | .loop _ body _ => 1 + limit * mostBlock limit body

def mostBlock (limit : Nat) : List Statement → Nat
  | [] => 0
  | first :: rest => first.most limit + mostBlock limit rest

def mostElse (limit : Nat) : Option (List Statement) → Nat
  | none => 0
  | some block => mostBlock limit block

end

def Machine.started (m : Machine σ) : Nat :=
  m.trace.toList.countP Event.isStatement

namespace Run

structure Bounded (n : Nat) (x : Run σ α) : Prop where
  ends : ∀ m, (result x m).1 ≠ .error .unfinished
  starts : ∀ m, (result x m).2.started ≤ m.started + n

theorem Bounded.mono {n k : Nat} {x : Run σ α} (h : Bounded n x) (hle : n ≤ k) : Bounded k x where
  ends := h.ends
  starts m := Nat.le_trans (h.starts m) (Nat.add_le_add_left hle _)

theorem Bounded.bind {n k : Nat} {x : Run σ α} {f : α → Run σ β} (hx : Bounded n x)
    (hf : ∀ a, Bounded k (f a)) : Bounded (n + k) (x >>= f) where
  ends m := by
    have hm := hx.ends m
    rcases h : result x m with ⟨halt | a, m'⟩
    · rw [result_bind_error h]
      rw [h] at hm
      exact fun he => hm (congrArg Except.error (Except.error.inj he))
    · rw [result_bind_ok h]
      exact (hf a).ends m'
  starts m := by
    have hm := hx.starts m
    rcases h : result x m with ⟨halt | a, m'⟩ <;> rw [h] at hm
    · rw [result_bind_error h]
      exact Nat.le_trans hm (by omega)
    · rw [result_bind_ok h]
      calc (result (f a) m').2.started
        _ ≤ m'.started + k := (hf a).starts m'
        _ ≤ m.started + n + k := Nat.add_le_add_right hm k
        _ = m.started + (n + k) := Nat.add_assoc _ _ _

theorem Bounded.of_started {n : Nat} {x : Run σ α}
    (h : ∀ m, ∃ a m', result x m = (.ok a, m') ∧ m'.started = m.started + n) : Bounded n x where
  ends m := by
    obtain ⟨a, m', hresult, -⟩ := h m
    rw [hresult]
    nofun
  starts m := by
    obtain ⟨a, m', hresult, hstarted⟩ := h m
    rw [hresult]
    exact Nat.le_of_eq hstarted

theorem bounded_fault (e : Fault) : Bounded 0 (fault e : Run σ α) where
  ends _ := by rw [result_fault]; nofun
  starts _ := Nat.le_refl _

theorem bounded_record {event : Event} (h : event.isStatement = false) :
    Bounded 0 (record event : Run σ Unit) := by
  apply Bounded.of_started
  intro m
  refine ⟨(), _, rfl, ?_⟩
  simp [Machine.started, h]

theorem bounded_enter (pos : Position) : Bounded 1 (enter pos : Run σ Unit) := by
  apply Bounded.of_started
  intro m
  refine ⟨(), _, rfl, ?_⟩
  simp [Machine.started, Event.isStatement]

theorem bounded_assign (name : String) (value : Value) :
    Bounded 0 (assign name value : Run σ Unit) := by
  apply Bounded.of_started
  intro m
  refine ⟨(), _, rfl, ?_⟩
  simp [Machine.started, Event.isStatement]

theorem bounded_congruence (s : Setting σ) :
    EvaluationCongruence id (fun x _ => Bounded 0 x) s s where
  maxWait := rfl
  pure _ := .of_started fun _ => ⟨_, _, rfl, rfl⟩
  bind := Bounded.bind
  fault _ := bounded_fault _
  record _ h := bounded_record h
  print _ _ := .of_started fun _ => ⟨_, _, rfl, rfl⟩
  printError _ _ := .of_started fun _ => ⟨_, _, rfl, rfl⟩
  lookup _ := .of_started fun _ => ⟨_, _, rfl, rfl⟩
  ask _ := .of_started fun _ => ⟨_, _, rfl, rfl⟩

theorem bounded_checkLimit_of_le {limit done : Nat} (pos : Position) (h : limit ≤ done)
    (f : Unit → Run σ α) : Bounded 0 (checkLimit (some limit) pos done >>= f) where
  ends m := by
    rw [result_bind_error (checkLimit_of_le pos h m)]
    nofun
  starts m := by
    rw [result_bind_error (checkLimit_of_le pos h m)]
    simp [Machine.started, Event.isStatement]

/-- A loop that has not made more iterations than it may goes through its body at most as often as
iterations are left to it. -/
theorem bounded_iterate {limit n : Nat} (pos : Position) {condition : Run σ Bool}
    {body : Run σ Unit} (hcondition : Bounded 0 condition) (hbody : Bounded n body)
    {patience done : Nat} (hdone : done ≤ limit) (hpatience : limit < done + patience) :
    Bounded ((limit - done) * n) (iterate (some limit) pos condition body patience done) := by
  -- Each iteration takes one from the patience and one from what is left, which runs out first.
  induction patience generalizing done with
  | zero => omega
  | succ patience ih =>
      rw [iterate, ← Nat.zero_add ((limit - done) * n)]
      refine hcondition.bind fun result => ?_
      cases result with
      | false => exact (bounded_record rfl).mono (Nat.zero_le _)
      | true =>
          rw [if_pos rfl]
          by_cases hlast : limit ≤ done
          · rw [Nat.sub_eq_zero_of_le hlast, Nat.zero_mul]
            exact bounded_checkLimit_of_le pos hlast _
          · rw [checkLimit_of_lt pos (by simpa using Nat.lt_of_not_le hlast), pure_bind]
            have hnext : Bounded ((limit - (done + 1)) * n)
                (iterate (some limit) pos condition body patience (done + 1)) :=
              ih (by omega) (by omega)
            have hsplit : (limit - done) * n = n + (limit - (done + 1)) * n := by
              rw [show limit - done = limit - (done + 1) + 1 by omega, Nat.add_mul, Nat.one_mul,
                Nat.add_comm]
            rw [hsplit]
            exact hbody.bind fun _ => hnext

/-! ## Statements and blocks -/

section

variable {s : Setting σ} {limit : Nat}

mutual

theorem bounded_execute (hlimit : s.limits.maxIterations = some limit)
    (hpatience : limit < s.patience) (statement : Statement) :
    Bounded (statement.most limit) (execute s statement) := by
  have c := bounded_congruence s
  cases statement with
  | declare name value pos =>
      rw [execute, Statement.most]
      exact (bounded_enter pos).bind fun _ => (c.evaluate value).bind fun a => bounded_assign name a
  | assign name value pos =>
      rw [execute, Statement.most]
      exact (bounded_enter pos).bind fun _ => (c.evaluate value).bind fun a => bounded_assign name a
  | branch condition thenBlock elseBlock pos =>
      rw [execute, Statement.most]
      refine (bounded_enter pos).bind fun _ => ?_
      rw [← Nat.zero_add (max _ _)]
      refine (c.test condition).bind fun result => ?_
      cases result with
      | true => exact (bounded_executeBlock hlimit hpatience thenBlock).mono (Nat.le_max_left _ _)
      | false => exact (bounded_executeElse hlimit hpatience elseBlock).mono (Nat.le_max_right _ _)
  | loop condition body pos =>
      rw [execute, Statement.most, hlimit]
      refine (bounded_enter pos).bind fun _ => ?_
      exact bounded_iterate pos (c.test condition) (bounded_executeBlock hlimit hpatience body)
        (Nat.zero_le limit) (by omega)
  | call command args pos =>
      rw [execute, Statement.most]
      have hcall (values : List Value) :
          Bounded 0 (do let _ ← call s command values pos : Run σ Unit) :=
        (c.call command values pos).bind fun _ => c.pure ()
      exact (bounded_enter pos).bind fun _ => (c.evaluateAll args).bind hcall

theorem bounded_executeBlock (hlimit : s.limits.maxIterations = some limit)
    (hpatience : limit < s.patience) (block : List Statement) :
    Bounded (mostBlock limit block) (executeBlock s block) := by
  cases block with
  | nil =>
      rw [executeBlock, mostBlock]
      exact (bounded_congruence s).pure ()
  | cons first rest =>
      rw [executeBlock, mostBlock]
      exact (bounded_execute hlimit hpatience first).bind fun _ =>
        bounded_executeBlock hlimit hpatience rest

theorem bounded_executeElse (hlimit : s.limits.maxIterations = some limit)
    (hpatience : limit < s.patience) (elseBlock : Option (List Statement)) :
    Bounded (mostElse limit elseBlock) (executeElse s elseBlock) := by
  cases elseBlock with
  | none =>
      rw [executeElse, mostElse]
      exact (bounded_congruence s).pure ()
  | some block =>
      rw [executeElse, mostElse]
      exact bounded_executeBlock hlimit hpatience block

end

end

/-! ## Patience beyond the limit -/

/-- A loop that stops at its limit never needs the patience it has beyond that. -/
theorem iterate_patience {limit : Nat} (pos : Position) (condition : Run σ Bool)
    (body : Run σ Unit) {patience patience' done : Nat} (hdone : done ≤ limit)
    (hpatience : limit < done + patience) (hpatience' : limit < done + patience') :
    iterate (some limit) pos condition body patience done =
      iterate (some limit) pos condition body patience' done := by
  induction patience generalizing patience' done with
  | zero => omega
  | succ patience ih =>
      obtain ⟨patience', rfl⟩ : ∃ k, patience' = k + 1 := ⟨patience' - 1, by omega⟩
      rw [iterate, iterate]
      apply bind_congr
      intro result
      cases result with
      | false => rfl
      | true =>
          rw [if_pos rfl, if_pos rfl]
          by_cases hlast : limit ≤ done
          · -- The fault drops whatever stands behind it, on both sides.
            rw [checkLimit, if_pos hlast]
            rfl
          · have hnext : iterate (some limit) pos condition body patience (done + 1) =
                iterate (some limit) pos condition body patience' (done + 1) :=
              ih (by omega) (by omega) (by omega)
            rw [hnext]

theorem executeBlock_patience (system : FileSystem σ) {limits : Limits} {limit : Nat}
    (hlimit : limits.maxIterations = some limit) {patience patience' : Nat}
    (hpatience : limit < patience) (hpatience' : limit < patience') (block : List Statement) :
    executeBlock ⟨system, limits, patience⟩ block =
      executeBlock ⟨system, limits, patience'⟩ block := by
  have c : Congruence id Eq (⟨system, limits, patience⟩ : Setting σ)
      ⟨system, limits, patience'⟩ := eq_congruence rfl rfl
  refine c.executeBlock ?_ block
  rintro pos condition _ body _ rfl rfl
  rw [hlimit]
  rw [← Nat.zero_add patience] at hpatience
  rw [← Nat.zero_add patience'] at hpatience'
  exact iterate_patience pos condition body (Nat.zero_le limit) hpatience hpatience'

end Run

/-! ## Iterations -/

namespace Point

def Concludes (s : Setting σ) (q : Point σ) : Except Halt Unit × Machine σ → Prop
  | (.ok (), m) => q = ⟨[], m⟩
  | (.error halt, m) => Stops s q halt m

theorem Ends.exists_last {s : Setting σ} {p : Point σ} {ending : Except Halt Unit × Machine σ}
    (h : Ends s [] p ending) :
    ∃ n q, Walk s.unbounded (Quiet s) n p q ∧ q.Concludes s ending := by
  obtain ⟨halt | _, m⟩ := ending
  · exact h
  · obtain ⟨n, hwalk⟩ := h
    exact ⟨n, ⟨[], m⟩, hwalk, rfl⟩

variable {s : Setting σ} {limit : Nat} {q : Point σ}

theorem lt_of_quiet (hlimit : s.limits.maxIterations = some limit) (hquiet : q.Quiet s)
    (hmade : ∀ task ∈ q.tasks, task.made ≤ limit) {done : Nat} {pos : Position}
    (h : q.Starts done pos) : done < limit := by
  have hne : done ≠ limit := by
    rintro rfl
    exact hquiet done hlimit pos h
  obtain ⟨condition, body, rest, htasks⟩ := h
  have hle := hmade (.iteration condition body pos done) (by simp [htasks])
  exact Nat.lt_of_le_of_ne hle hne

theorem madeNext_le_of_quiet (hlimit : s.limits.maxIterations = some limit) (hquiet : q.Quiet s)
    (hmade : ∀ task ∈ q.tasks, task.made ≤ limit) :
    ∀ task ∈ q.tasks.head?, task.madeNext ≤ limit := by
  intro task htask
  cases task with
  | statements block => exact Nat.zero_le limit
  | loop condition body pos done => exact hmade _ (List.mem_of_mem_head? htask)
  | iteration condition body pos done =>
      obtain ⟨rest, htasks⟩ := List.head?_eq_some_iff.1 htask
      exact lt_of_quiet hlimit hquiet hmade ⟨condition, body, rest, htasks⟩

end Point

namespace Program

open Point

variable (system : FileSystem σ) (wait : Option Nat) (program : Program) (files : σ)

/-- As long as the limit allows every iteration, no loop counts beyond it. -/
theorem made_point_le {limit n : Nat}
    (hquiet : ∀ k < n, ∀ q, program.point system wait files k = some q →
      q.Quiet ((⟨some limit, wait⟩ : Limits).setting system))
    {q : Point σ} (h : program.point system wait files n = some q) :
    ∀ task ∈ q.tasks, task.made ≤ limit := by
  induction n generalizing q with
  | zero =>
      cases h
      simp [firstPoint, Pending.made]
  | succ n ih =>
      rw [point_succ] at h
      obtain ⟨p, hp, hnext⟩ := Option.bind_eq_some_iff.1 h
      have hmade := ih (fun k hk => hquiet k (Nat.lt_succ_of_lt hk)) hp
      exact made_next? hnext hmade
        (madeNext_le_of_quiet rfl (hquiet n (Nat.lt_succ_self n) p hp) hmade)

theorem conclude_started (ending : Except Halt Unit × Machine σ) :
    (conclude ending).2.started = ending.2.started := by
  obtain ⟨(fault | _) | _, m⟩ := ending <;> simp [conclude, Machine.started, Event.isStatement]

theorem conclude_ne_unfinished {ending : Except Halt Unit × Machine σ}
    (h : ending.1 ≠ .error .unfinished) : (conclude ending).1 ≠ .unfinished := by
  obtain ⟨(fault | _) | _, m⟩ := ending
  · nofun
  · exact absurd rfl h
  · nofun

/-- Under a limit every program comes to an end, with as much patience as it takes, and starts no
more statements than the limit allows. The run goes through finitely many points; at none of them a
loop has counted beyond the limit, and where an iteration starts its counter can be raised within a
64-bit word. -/
theorem run_under_limit (limit : UInt64) :
    (program.run system ⟨some limit.toNat, wait⟩ files).1 ≠ .unfinished ∧
    (∀ patience, limit.toNat < patience →
      program.runWith ⟨system, ⟨some limit.toNat, wait⟩, patience⟩ files =
        program.run system ⟨some limit.toNat, wait⟩ files) ∧
    (program.run system ⟨some limit.toNat, wait⟩ files).2.started ≤
      mostBlock limit.toNat program.body ∧
    ∃ n last ending, program.point system wait files n = some last ∧
      last.Concludes ((⟨some limit.toNat, wait⟩ : Limits).setting system) ending ∧
      program.run system ⟨some limit.toNat, wait⟩ files = conclude ending ∧
      ∀ k ≤ n, ∀ q, program.point system wait files k = some q →
        (∀ task ∈ q.tasks, task.made ≤ limit.toNat) ∧
        (k < n → ∀ done pos, q.Starts done pos → (UInt64.ofNat done + 1).toNat = done + 1) := by
  have hbounded : Bounded (mostBlock limit.toNat program.body)
      (executeBlock ((⟨some limit.toNat, wait⟩ : Limits).setting system) program.body) :=
    bounded_executeBlock rfl (Nat.lt_succ_self _) program.body
  obtain ⟨n, last, hwalk, hconcludes⟩ := (ends_points program files
    ((⟨some limit.toNat, wait⟩ : Limits).setting system)).exists_last
  refine ⟨?_, ?_, ?_, n, last, _, hwalk.after_eq, hconcludes, ?_, ?_⟩
  · rw [run, runWith_eq]
    exact conclude_ne_unfinished (hbounded.ends _)
  · intro patience hpatience
    rw [run, runWith_eq, runWith_eq, Limits.setting]
    rw [executeBlock_patience system rfl hpatience (Nat.lt_succ_self _)]
    rfl
  · rw [run, runWith_eq, conclude_started]
    refine Nat.le_trans (hbounded.starts _) (Nat.le_of_eq ?_)
    simp [start, Machine.started, Event.isStatement]
  · rw [run, runWith_eq]
  · intro k hk q hq
    have hmade : ∀ task ∈ q.tasks, task.made ≤ limit.toNat :=
      made_point_le system wait program files (fun j hj r hr => hwalk.quiet_of_lt (by omega) hr) hq
    refine ⟨hmade, fun hlt done pos hstarts => ?_⟩
    have hdone : done < limit.toNat := lt_of_quiet rfl (hwalk.quiet_of_lt hlt hq) hmade hstarts
    have hsize := limit.toNat_lt
    rw [UInt64.toNat_add, UInt64.toNat_ofNat', UInt64.toNat_one]
    omega

end Program

end FileChores
