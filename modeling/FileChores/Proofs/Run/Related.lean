import FileChores.Proofs.Run.Congruence
import FileChores.Proofs.Run.Result

/-!
# Runs that keep a relation

Two machines in a relation that every step keeps stay in it for whole runs, which then return the
same or stop for the same reason. What the first run does at `pos` the second does at `f pos`; where
nothing moves, `f` is `id`.
-/

namespace FileChores

variable {σ τ α β : Type} {f : Position → Position} {rel : Machine σ → Machine τ → Prop}

namespace Run

/-- Both ends have the same value, or the same halt at its own place, and machines in the
relation. -/
structure EndsAlike (f : Position → Position) (rel : Machine σ → Machine τ → Prop)
    (ending : Except Halt α × Machine σ) (ending' : Except Halt α × Machine τ) : Prop where
  result : ending'.1 = ending.1.mapError (Halt.moved f)
  machines : rel ending.2 ending'.2

theorem mapError_moved_id (outcome : Except Halt α) :
    outcome.mapError (Halt.moved id) = outcome := by
  cases outcome with
  | ok => rfl
  | error halt => exact congrArg Except.error halt.moved_id

namespace EndsAlike

theorem of_eq {ending : Except Halt α × Machine σ} {ending' : Except Halt α × Machine τ}
    (hresult : ending'.1 = ending.1) (hmachines : rel ending.2 ending'.2) :
    EndsAlike id rel ending ending' where
  result := by rw [mapError_moved_id, hresult]
  machines := hmachines

theorem result_eq {ending : Except Halt α × Machine σ} {ending' : Except Halt α × Machine τ}
    (h : EndsAlike id rel ending ending') : ending'.1 = ending.1 := by
  rw [h.result, mapError_moved_id]

theorem bind {x : Run σ α} {y : Run τ α} {k : α → Run σ β} {l : α → Run τ β} {m : Machine σ}
    {m' : Machine τ} (h : EndsAlike f rel (Run.result x m) (Run.result y m'))
    (hk : ∀ a n n', Run.result x m = (.ok a, n) → rel n n' →
      EndsAlike f rel (Run.result (k a) n) (Run.result (l a) n')) :
    EndsAlike f rel (Run.result (x >>= k) m) (Run.result (y >>= l) m') := by
  obtain ⟨hresult, hmachines⟩ := h
  rcases hx : Run.result x m with ⟨halt | a, n⟩ <;>
    rcases hy : Run.result y m' with ⟨halt' | a', n'⟩ <;>
    rw [hx, hy] at hresult hmachines <;> cases hresult
  · rw [result_bind_error hx, result_bind_error hy]
    exact ⟨rfl, hmachines⟩
  · rw [result_bind_ok hx, result_bind_ok hy]
    exact hk a n n' hx hmachines

end EndsAlike

def Related (f : Position → Position) (rel : Machine σ → Machine τ → Prop) (x : Run σ α)
    (y : Run τ α) : Prop :=
  ∀ m m', rel m m' → EndsAlike f rel (result x m) (result y m')

namespace Related

theorem pure (a : α) : Related f rel (pure a) (pure a) :=
  fun _ _ h => ⟨rfl, h⟩

theorem throw (halt : Halt) :
    Related f rel (throw halt : Run σ α) (throw (halt.moved f)) :=
  fun _ _ h => ⟨rfl, h⟩

theorem bind {x : Run σ α} {y : Run τ α} {k : α → Run σ β} {l : α → Run τ β}
    (h : Related f rel x y) (hk : ∀ a, Related f rel (k a) (l a)) :
    Related f rel (x >>= k) (y >>= l) :=
  fun m m' hm => (h m m' hm).bind fun a n n' _ hn => hk a n n' hn

end Related

end Run

open Run

/-- What both machines do alike keeps the relation. -/
structure Machine.StepsAlike (f : Position → Position) (rel : Machine σ → Machine τ → Prop) :
    Prop where
  environment : ∀ {m m'}, rel m m' → m'.environment = m.environment
  insert : ∀ {m m'}, rel m m' → ∀ name value,
    rel { m with environment := m.environment.insert name value }
      { m' with environment := m'.environment.insert name value }
  stand : ∀ {m m'}, rel m m' → ∀ pos, rel { m with pos := pos } { m' with pos := f pos }
  tell : ∀ {m m'}, rel m m' → ∀ event, rel { m with trace := m.trace.push event }
    { m' with trace := m'.trace.push (event.moved f) }

/-- The same where both also print, and ask file systems that answer alike. -/
structure Machine.ActsAlike (f : Position → Position) (rel : Machine σ → Machine τ → Prop)
    (system : FileSystem σ) (system' : FileSystem τ) : Prop extends StepsAlike f rel where
  push : ∀ {m m'}, rel m m' → ∀ line, rel { m with terminal := m.terminal.push line }
    { m' with terminal := m'.terminal.push (line.moved f) }
  answer : ∀ {m m'}, rel m m' → ∀ request,
    (system'.answer request m'.files).1 = (system.answer request m.files).1
  ask : ∀ {m m'}, rel m m' → ∀ request,
    rel { m with files := (system.answer request m.files).2 }
      { m' with files := (system'.answer request m'.files).2 }

namespace Machine.StepsAlike

theorem record (h : StepsAlike f rel) (event : Event) :
    Related f rel (Run.record event) (Run.record (event.moved f)) :=
  fun _ _ hm => ⟨rfl, h.tell hm event⟩

theorem lookup (h : StepsAlike f rel) (name : String) :
    Related f rel (Run.lookup name) (Run.lookup name) := by
  intro m m' hm
  refine ⟨?_, hm⟩
  show Except.ok ((m'.environment.get? name).getD (.text name)) = _
  rw [h.environment hm]
  rfl

theorem assign (h : StepsAlike f rel) (name : String) (value : Value) :
    Related f rel (Run.assign name value) (Run.assign name value) :=
  (h.record (.assigned name value)).bind fun _ _ _ hm => ⟨rfl, h.insert hm name value⟩

theorem enter (h : StepsAlike f rel) (pos : Position) :
    Related f rel (Run.enter pos) (Run.enter (f pos)) := by
  have hstand : Related f rel (modify fun m => { m with pos := pos } : Run σ Unit)
      (modify fun m => { m with pos := f pos }) :=
    fun _ _ hm => ⟨rfl, h.stand hm pos⟩
  exact hstand.bind fun _ => h.record (.statement pos)

variable {s : Setting σ} {t : Setting τ} {site : Command → Position → Prop}

theorem lockstep (h : StepsAlike f rel)
    (hcall : ∀ command args pos, site command pos →
      Related f rel (Run.call s command args pos) (Run.call t command args (f pos)))
    (hlimit : s.limits.maxIterations = t.limits.maxIterations)
    (hpatience : s.patience = t.patience) : Lockstep f (Related f rel) s t site where
  pure := .pure
  bind := .bind
  fault _ := .throw (.fault _)
  compared left op right result := h.record (.compared left op right result)
  lookup := h.lookup
  call := hcall
  assign := h.assign
  enter := h.enter
  maxIterations := hlimit
  patience := hpatience
  giveUp := .throw .unfinished
  loopLimit limit pos := .throw (.fault (.loopLimit limit pos))
  loopLimitReached limit pos := h.record (.loopLimitReached limit pos)
  loopFinished done pos := h.record (.loopFinished done pos)

end Machine.StepsAlike

theorem Machine.ActsAlike.congruence {s : Setting σ} {t : Setting τ}
    (h : ActsAlike f rel s.files t.files) (hwait : s.limits.maxWait = t.limits.maxWait) :
    Congruence f (Related f rel) s t where
  maxWait := hwait
  pure := .pure
  bind := .bind
  fault _ := .throw (.fault _)
  record event _ := h.record event
  print text pos _ _ hm := ⟨rfl, h.push hm ⟨text, .output, pos⟩⟩
  printError text pos _ _ hm := ⟨rfl, h.push hm ⟨text, .errors, pos⟩⟩
  lookup := h.lookup
  ask request _ _ hm := ⟨congrArg Except.ok (h.answer hm request), h.ask hm request⟩
  assign := h.assign
  enter := h.enter

theorem Machine.ActsAlike.lockstep {system : FileSystem σ} {system' : FileSystem τ}
    (h : ActsAlike f rel system system') (limits : Limits) (patience : Nat) :
    Lockstep f (Related f rel) ⟨system, limits, patience⟩ ⟨system', limits, patience⟩
      fun _ _ => True :=
  have c : Congruence f (Related f rel) ⟨system, limits, patience⟩ ⟨system', limits, patience⟩ :=
    congruence h rfl
  h.toStepsAlike.lockstep (fun command args pos _ => c.call command args pos) rfl rfl

/-! ## Whole programs -/

namespace Program

theorem conclude_alike {ending : Except Halt Unit × Machine σ}
    {ending' : Except Halt Unit × Machine τ} (h : EndsAlike f rel ending ending')
    (hfinished : ∀ {m m'}, rel m m' →
      rel { m with trace := m.trace.push (.finished m.environment.size) }
        { m' with trace := m'.trace.push (.finished m'.environment.size) })
    (haborted : ∀ {m m'}, rel m m' → ∀ fault : Fault,
      rel { m with trace := m.trace.push (.aborted fault) }
        { m' with trace := m'.trace.push (.aborted (fault.moved f)) }) :
    (conclude ending').1 = (conclude ending).1.moved f ∧
      rel (conclude ending).2 (conclude ending').2 := by
  obtain ⟨result, m⟩ := ending
  obtain ⟨result', m'⟩ := ending'
  obtain ⟨rfl, hmachines⟩ : result' = result.mapError (Halt.moved f) ∧ rel m m' :=
    ⟨h.result, h.machines⟩
  rcases result with (fault | _) | _
  · exact ⟨rfl, haborted hmachines fault⟩
  · exact ⟨rfl, hmachines⟩
  · exact ⟨rfl, hfinished hmachines⟩

variable {s : Setting σ} {t : Setting τ} {m : Machine σ} {m' : Machine τ}

theorem runFrom_alike (h : Machine.StepsAlike f rel)
    (c : Lockstep f (Related f rel) s t fun _ _ => True) (program : Program) (hm : rel m m') :
    ((program.moved f).runFrom t m').1 = (program.runFrom s m).1.moved f ∧
      rel (program.runFrom s m).2 ((program.moved f).runFrom t m').2 := by
  have hstart := h.tell hm (.running program.body.length)
  have hends := c.executeBlock_moved program.body (fun _ _ _ _ => trivial) _ _ hstart
  rw [runFrom_eq, runFrom_eq, Program.moved, Statement.length_movedBlock]
  refine conclude_alike hends (fun {n n'} hn => ?_) fun hn fault => h.tell hn (.aborted fault)
  have hsize : n'.environment.size = n.environment.size := by rw [h.environment hn]
  rw [hsize]
  exact h.tell hn (.finished n.environment.size)

theorem runFrom_alike_id (h : Machine.StepsAlike id rel)
    (c : Lockstep id (Related id rel) s t fun _ _ => True) (program : Program) (hm : rel m m') :
    (program.runFrom t m').1 = (program.runFrom s m).1 ∧
      rel (program.runFrom s m).2 (program.runFrom t m').2 := by
  have halike := program.runFrom_alike h c hm
  rwa [Program.moved_id, Outcome.moved_id] at halike

end Program

end FileChores
