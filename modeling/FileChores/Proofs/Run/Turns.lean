import FileChores.Proofs.Run.Telling

/-!
# The iterations of a loop

How a run comes to a statement, and how often one execution of a loop has run its body, are told
here by what is executed alone, without the count that the loop keeps. The count that a loop tells
when it ends is that number.
-/

namespace FileChores

open Run

variable {σ : Type} {α β : Type}

def Setting.Allows (s : Setting σ) (done : Nat) : Prop :=
  ∀ limit ∈ s.limits.maxIterations, done < limit

/-- As many iterations of a loop: before each the condition holds and the limit allows it, and the
body runs to its end. -/
inductive Turns (s : Setting σ) (condition : Condition) (body : List Statement) :
    Nat → Machine σ → Machine σ → Prop
  | none (m : Machine σ) : Turns s condition body 0 m m
  | turn {n : Nat} {m m₁ m₂ m₃ : Machine σ} : Turns s condition body n m m₁ →
      result (test s condition) m₁ = (.ok true, m₂) → s.Allows n →
      result (executeBlock s body) m₂ = (.ok (), m₃) → Turns s condition body (n + 1) m m₃

/-- Executing the block from the first machine on comes to executing the statement from the second
machine on. -/
inductive ComesTo (s : Setting σ) (target : Statement) (there : Machine σ) :
    List Statement → Machine σ → Prop
  | here {rest : List Statement} : ComesTo s target there (target :: rest) there
  | later {first : Statement} {rest : List Statement} {m m' : Machine σ} :
      result (execute s first) m = (.ok (), m') → ComesTo s target there rest m' →
      ComesTo s target there (first :: rest) m
  | thenBlock {condition : Condition} {thenBlock : List Statement}
      {elseBlock : Option (List Statement)} {pos : Position} {rest : List Statement}
      {m m' : Machine σ} :
      result (enter pos >>= fun _ => test s condition) m = (.ok true, m') →
      ComesTo s target there thenBlock m' →
      ComesTo s target there (.branch condition thenBlock elseBlock pos :: rest) m
  | elseBlock {condition : Condition} {thenBlock elseBlock : List Statement} {pos : Position}
      {rest : List Statement} {m m' : Machine σ} :
      result (enter pos >>= fun _ => test s condition) m = (.ok false, m') →
      ComesTo s target there elseBlock m' →
      ComesTo s target there (.branch condition thenBlock (some elseBlock) pos :: rest) m
  | body {condition : Condition} {body : List Statement} {pos : Position} {rest : List Statement}
      {n : Nat} {m m₁ m₂ m₃ : Machine σ} :
      result (enter pos) m = (.ok (), m₁) → Turns s condition body n m₁ m₂ →
      result (test s condition) m₂ = (.ok true, m₃) → s.Allows n →
      ComesTo s target there body m₃ → ComesTo s target there (.loop condition body pos :: rest) m

/-- From the machine on, the loop runs its body `n` times and ends with the second machine, where
its condition has failed. -/
def EndsAfter (s : Setting σ) (condition : Condition) (body : List Statement) (pos : Position)
    (n : Nat) (m m' : Machine σ) : Prop :=
  ∃ m₁ m₂, result (enter pos) m = (.ok (), m₁) ∧ Turns s condition body n m₁ m₂ ∧
    result (test s condition) m₂ = (.ok false, m')

/-- A loop at the place has been executed with `n` iterations, and then the trace was the given
one. -/
def Counted (s : Setting σ) (origin : Statement → Machine σ → Prop) (n : Nat) (pos : Position)
    (before : List Event) : Prop :=
  ∃ condition body m m', origin (.loop condition body pos) m ∧
    EndsAfter s condition body pos n m m' ∧ m'.trace.toList = before

structure Counts (s : Setting σ) (origin : Statement → Machine σ → Prop) (events : List Event)
    (m m' : Machine σ) : Prop where
  trace : m'.trace.toList = m.trace.toList ++ events
  counted : ∀ k n pos, events[k]? = some (.loopFinished n pos) →
    Counted s origin n pos (m.trace.toList ++ events.take k)

variable {s : Setting σ} {origin : Statement → Machine σ → Prop} {events more : List Event}
  {m m' m'' : Machine σ}

theorem Counts.trans (h : Counts s origin events m m') (h' : Counts s origin more m' m'') :
    Counts s origin (events ++ more) m m'' where
  trace := by rw [h'.trace, h.trace, List.append_assoc]
  counted k n pos hk := by
    rw [List.take_append]
    rcases Nat.lt_or_ge k events.length with hlt | hge
    · rw [List.getElem?_append_left hlt] at hk
      have := h.counted k n pos hk
      rwa [Nat.sub_eq_zero_of_le (Nat.le_of_lt hlt), List.take_zero, List.append_nil]
    · rw [List.getElem?_append_right hge] at hk
      have := h'.counted _ n pos hk
      rwa [List.take_of_length_le hge, ← List.append_assoc, ← h.trace]

theorem Counts.of_forall (htrace : m'.trace.toList = m.trace.toList ++ events)
    (h : ∀ event ∈ events, ∀ n pos, event ≠ .loopFinished n pos) : Counts s origin events m m' where
  trace := htrace
  counted _ n pos hk := absurd rfl (h _ (List.mem_of_getElem? hk) n pos)

def Finds (s : Setting σ) (origin : Statement → Machine σ → Prop) (x : Run σ α) (m : Machine σ) :
    Prop :=
  Appends (Counts s origin) x m

namespace Finds

theorem bind {x : Run σ α} {f : α → Run σ β} (hx : Finds s origin x m)
    (hf : ∀ a m', result x m = (.ok a, m') → Finds s origin (f a) m') :
    Finds s origin (x >>= f) m :=
  Appends.bind Counts.trans hx hf

theorem mono {origin' : Statement → Machine σ → Prop} {x : Run σ α} (h : Finds s origin x m)
    (horigin : ∀ target there, origin target there → origin' target there) :
    Finds s origin' x m := by
  obtain ⟨events, htrace, hcounted⟩ := h
  refine ⟨events, htrace, fun k n pos hk => ?_⟩
  obtain ⟨condition, body, there, m', hcomes, hloops⟩ := hcounted k n pos hk
  exact ⟨condition, body, there, m', horigin _ _ hcomes, hloops⟩

end Finds

/-! ## Runs without loops -/

namespace Run

def Unfinished (events : List Event) (m m' : Machine σ) : Prop :=
  m'.trace.toList = m.trace.toList ++ events ∧
    ∀ event ∈ events, ∀ n pos, event ≠ .loopFinished n pos

theorem Unfinished.trans {events more : List Event} {m m' m'' : Machine σ}
    (h : Unfinished events m m') (h' : Unfinished more m' m'') :
    Unfinished (events ++ more) m m'' := by
  refine ⟨by rw [h'.1, h.1, List.append_assoc], fun event hevent => ?_⟩
  exact (List.mem_append.1 hevent).elim (h.2 event) (h'.2 event)

def Unlooped (x : Run σ α) : Prop :=
  ∀ m, Appends Unfinished x m

theorem Unlooped.finds {x : Run σ α} (h : Unlooped x) (m : Machine σ) : Finds s origin x m := by
  obtain ⟨events, htrace, hevents⟩ := h m
  exact ⟨events, .of_forall htrace hevents⟩

theorem Unlooped.of_silent {x : Run σ α} (h : ∀ m, (result x m).2.trace = m.trace) :
    Unlooped x := by
  intro m
  exact ⟨[], by rw [h m, List.append_nil], by simp⟩

theorem Unlooped.of_event {x : Run σ α} {event : Event}
    (hevent : ∀ n pos, event ≠ .loopFinished n pos)
    (h : ∀ m, (result x m).2.trace = m.trace.push event) : Unlooped x := by
  intro m
  exact ⟨[event], by rw [h m, Array.toList_push], by simpa using hevent⟩

theorem Unlooped.bind {x : Run σ α} {f : α → Run σ β} (hx : Unlooped x)
    (hf : ∀ a, Unlooped (f a)) : Unlooped (x >>= f) :=
  fun m => (hx m).bind Unfinished.trans fun a m' _ => hf a m'

theorem unfinished_advance {events : List Event} {lines : List Line}
    (hreports : Reports events lines) (command : Command) (args : List Value) (pos : Position)
    (m : Machine σ) (files : σ) : Unfinished (.dispatched command args pos :: events) m
      (m.advance (.dispatched command args pos :: events) lines files) := by
  refine ⟨by simp [Machine.advance], ?_⟩
  rintro event hevent n pos' rfl
  cases hevent with
  | tail _ hevent => cases hreports.isReport _ hevent

theorem unlooped_call (s : Setting σ) (command : Command) (args : List Value) (pos : Position) :
    Unlooped (call s command args pos) := by
  intro m
  apply result_call_cases (motive := fun ending => ∃ events, Unfinished events m ending.2)
  · exact fun request events _ _ hreports => ⟨_, unfinished_advance hreports ..⟩
  · exact fun duration events _ _ hreports => ⟨_, unfinished_advance hreports ..⟩
  · exact fun _ => ⟨[], by simp, by simp⟩

theorem unlooped_executions (s : Setting σ) :
    ExecutionCongruence id (fun x _ => Unlooped x) s s fun _ _ => True where
  pure _ := .of_silent fun _ => rfl
  bind := Unlooped.bind
  fault _ := .of_silent fun _ => rfl
  compared _ _ _ _ := .of_event (by simp) fun _ => rfl
  lookup _ := .of_silent fun _ => rfl
  call command args pos _ := unlooped_call s command args pos
  assign _ _ := .of_event (by simp) fun _ => rfl
  enter _ := .of_event (by simp) fun _ => rfl

theorem unlooped_test (s : Setting σ) (condition : Condition) : Unlooped (test s condition) :=
  (unlooped_executions s).test_moved condition (fun _ _ _ _ => trivial) fun _ _ _ _ => trivial

theorem unlooped_enter (pos : Position) : Unlooped (enter pos : Run σ Unit) :=
  .of_event (by simp) fun _ => rfl

end Run

/-! ## Runs with loops -/

theorem unlooped_checkLimit (limit : Option Nat) (pos : Position) (done : Nat) :
    Unlooped (checkLimit limit pos done : Run σ Unit) := by
  rcases limit_le_or_lt limit done with ⟨limit, rfl, hle⟩ | hlt
  · intro m
    rw [Appends, checkLimit_of_le pos hle m]
    exact ⟨[.loopLimitReached limit pos], Array.toList_push, by simp⟩
  · rw [checkLimit_of_lt pos hlt]
    exact .of_silent fun _ => rfl

theorem of_checkLimit {limit : Option Nat} {pos : Position} {done : Nat} {m m' : Machine σ}
    (h : result (checkLimit limit pos done) m = (.ok (), m')) :
    m' = m ∧ ∀ n ∈ limit, done < n := by
  rcases limit_le_or_lt limit done with ⟨limit, rfl, hle⟩ | hlt
  · rw [checkLimit_of_le pos hle m] at h
    cases h
  · rw [checkLimit_of_lt pos hlt, result_pure] at h
    cases h
    exact ⟨rfl, hlt⟩

theorem counts_loopFinished {n : Nat} {pos : Position}
    (h : Counted s origin n pos m.trace.toList) : Counts s origin [.loopFinished n pos] m
      { m with trace := m.trace.push (.loopFinished n pos) } where
  trace := Array.toList_push
  counted k n' pos' hk := by
    obtain ⟨hlt, heq⟩ := List.getElem?_eq_some_iff.1 hk
    obtain rfl : k = 0 := Nat.lt_one_iff.1 hlt
    cases heq
    rwa [List.take_zero, List.append_nil]

theorem finds_iterate {condition : Condition} {body : List Statement} {pos : Position}
    {m₀ : Machine σ}
    (hbody : ∀ {n m₁ m₂}, Turns s condition body n m₀ m₁ →
      result (test s condition) m₁ = (.ok true, m₂) → s.Allows n →
      Finds s origin (executeBlock s body) m₂)
    (hend : ∀ {n m₁ m₂}, Turns s condition body n m₀ m₁ →
      result (test s condition) m₁ = (.ok false, m₂) → Counted s origin n pos m₂.trace.toList)
    (patience : Nat) {done : Nat} (hturns : Turns s condition body done m₀ m) :
    Finds s origin (iterate s.limits.maxIterations pos (test s condition) (executeBlock s body)
      patience done) m := by
  induction patience generalizing done m with
  | zero =>
      rw [iterate]
      exact (Unlooped.of_silent fun _ => rfl).finds m
  | succ patience ih =>
      rw [iterate]
      refine ((unlooped_test s condition).finds m).bind fun holds m₁ htest => ?_
      cases holds with
      | true =>
          refine ((unlooped_checkLimit _ pos done).finds m₁).bind fun _ m₂ hcheck => ?_
          obtain ⟨rfl, hallows⟩ := of_checkLimit hcheck
          refine (hbody hturns htest hallows).bind fun _ m₃ hrun => ?_
          exact ih (.turn hturns htest hallows hrun)
      | false => exact ⟨_, counts_loopFinished (hend hturns htest)⟩

mutual

theorem finds_execute (s : Setting σ) (first : Statement) (rest : List Statement) (m : Machine σ) :
    Finds s (fun target there => ComesTo s target there (first :: rest) m) (execute s first) m := by
  have c := unlooped_executions s
  cases first with
  | declare | assign | call =>
      exact Unlooped.finds (c.execute_simple_moved rfl fun _ _ _ _ => trivial) m
  | branch condition thenBlock elseBlock pos =>
      rw [execute, ← bind_assoc]
      have htest := (unlooped_enter pos).bind fun _ => unlooped_test s condition
      refine (htest.finds m).bind fun holds m' hresult => ?_
      cases holds with
      | true => exact (finds_executeBlock s thenBlock m').mono fun _ _ => .thenBlock hresult
      | false =>
          cases elseBlock with
          | none =>
              rw [if_neg Bool.false_ne_true, executeElse]
              exact (Unlooped.of_silent fun _ => rfl).finds m'
          | some block =>
              rw [if_neg Bool.false_ne_true, executeElse]
              exact (finds_executeBlock s block m').mono fun _ _ => .elseBlock hresult
  | loop condition body pos =>
      rw [execute]
      refine ((unlooped_enter pos).finds m).bind fun _ m₀ henter => ?_
      refine finds_iterate (fun {n m₁ m₂} hturns htest hallows => ?_)
        (fun {n m₁ m₂} hturns htest => ?_) s.patience (.none m₀)
      · exact (finds_executeBlock s body m₂).mono fun _ _ => .body henter hturns htest hallows
      · exact ⟨condition, body, m, m₂, .here, ⟨m₀, m₁, henter, hturns, htest⟩, rfl⟩

theorem finds_executeBlock (s : Setting σ) (block : List Statement) (m : Machine σ) :
    Finds s (fun target there => ComesTo s target there block m) (executeBlock s block) m := by
  cases block with
  | nil =>
      rw [executeBlock]
      exact (Unlooped.of_silent fun _ => rfl).finds m
  | cons first rest =>
      rw [executeBlock]
      refine (finds_execute s first rest m).bind fun _ m' hresult => ?_
      exact (finds_executeBlock s rest m').mono fun _ _ => .later hresult

end

/-! ## Whole programs -/

def Outcome.closing (bindings : Nat) : Outcome → List Event
  | finished => [.finished bindings]
  | aborted fault => [.aborted fault]
  | unfinished => []

namespace Program

theorem conclude_environment (ending : Except Halt Unit × Machine σ) :
    (conclude ending).2.environment = ending.2.environment := by
  obtain ⟨(fault | _) | _, m⟩ := ending <;> rfl

theorem conclude_trace (ending : Except Halt Unit × Machine σ) :
    (conclude ending).2.trace.toList = ending.2.trace.toList ++
      (conclude ending).1.closing (conclude ending).2.environment.size := by
  obtain ⟨(fault | _) | _, m⟩ := ending <;> simp [conclude, Outcome.closing]

/-- The trace of a run begins with the script and, if the run is over, ends with how it ended. What
lies between tells of no script. Its assignments lead to the variables, its last statement is the
place, its dispatches but for waits are what was asked of the file system, its failures are the
lines on the stream of errors, and where it tells how often a loop was run, the run has come to that
loop and run its body as often. -/
theorem runWith_tells (system : FileSystem σ) (limits : Limits) (patience : Nat)
    (program : Program) (files : σ) :
    let s : Setting (σ × List Request) := ⟨system.recorded, limits, patience⟩
    let ending := program.runWith s (files, [])
    program.runWith ⟨system, limits, patience⟩ files = (ending.1, ending.2.unrecorded) ∧
    ∃ events,
      ending.2.trace.toList = .running program.body.length :: events ++
        ending.1.closing ending.2.environment.size ∧
      (∀ event ∈ events, event.isBoundary = false) ∧
      ending.2.environment.texts = events.foldl Event.replay ∅ ∧
      ending.2.pos = (events.filterMap Event.start?).getLast?.getD .start ∧
      ending.2.files.2.map Request.call = events.filterMap Event.asked? ∧
      ending.2.complaints = events.filterMap Event.failure? ∧
      ∀ k n pos, events[k]? = some (.loopFinished n pos) → ∃ condition body m m',
        ComesTo s (.loop condition body pos) m program.body (program.start (files, [])) ∧
        EndsAfter s condition body pos n m m' ∧
        m'.trace.toList = .running program.body.length :: events.take k := by
  intro s ending
  have hrecorded : system.recorded.LooksLike Prod.fst system := fun _ _ => rfl
  refine ⟨program.runWith_seen hrecorded limits patience (files, []), ?_⟩
  obtain ⟨events, htells⟩ := (telling_lockstep system limits patience).executeBlock program.body
    (fun _ _ _ _ => trivial) (program.start (files, []))
  obtain ⟨events', hcounts⟩ := finds_executeBlock s program.body (program.start (files, []))
  obtain rfl : events = events' :=
    List.append_cancel_left (htells.trace.symm.trans hcounts.trace)
  have hending : ending = conclude _ := program.runWith_eq s (files, [])
  refine ⟨events, ?_, htells.inner, ?_, ?_, ?_, ?_, hcounts.counted⟩
  · rw [hending, conclude_trace, htells.trace]
    rfl
  · rw [hending, conclude_environment, htells.texts]
    exact congrArg (events.foldl Event.replay) Environment.texts_empty
  · rw [hending, conclude_pos, htells.pos]
    rfl
  · rw [hending, conclude_files, htells.asked]
    rfl
  · rw [hending, Machine.complaints, conclude_terminal]
    exact htells.complaints

end Program

end FileChores
