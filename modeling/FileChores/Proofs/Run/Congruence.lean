import FileChores.Proofs.Moved
import FileChores.Proofs.Program.Nodes

/-!
# Two runs side by side

A relation between runs that holds between equal steps, and that passes from the parts of a run to
the whole, holds between the evaluations of any expression under two settings. When it passes to
loops as well, it holds between the executions of any statement. The calls of a program count as
steps, or are taken apart into the steps they consist of.

The second of two equal steps may be told at another place: it runs at `f pos` what the first runs
at `pos`, and so the second program is the first one with its places moved by `f`. Where nothing
moves `f` is `id`.
-/

namespace FileChores

def Fault.isLoopLimit : Fault → Bool
  | loopLimit _ _ => true
  | _ => false

/-- Whether a loop was stopped, at its limit or for want of patience. -/
def Halt.isCut : Halt → Bool
  | fault e => e.isLoopLimit
  | unfinished => true

def Event.isStatement : Event → Bool
  | statement _ => true
  | _ => false

/-- Whether no block stands in the statement. -/
def Statement.isSimple : Statement → Bool
  | declare _ _ _ | assign _ _ _ | call _ _ _ => true
  | branch _ _ _ _ | loop _ _ _ => false

namespace Request

theorem exists_of_mem_detours {request : Request} {detour : Option Refusal} {event : Event}
    (h : event ∈ request.detours detour) :
    ∃ source target cause, event = .copiedInstead source target cause := by
  cases request <;> cases detour <;> simp [detours] at h <;> exact ⟨_, _, _, h⟩

theorem exists_of_mem_notes {request : Request} {reply : request.Reply} {event : Event}
    (h : event ∈ request.notes reply) : ∃ bytes, event = .copied bytes := by
  cases request <;> simp [notes] at h
  exact ⟨_, h⟩

end Request

namespace Run

variable {σ τ : Type}

/-- `rel` holds between equal calls at places of the kind `site` and between the other steps of an
evaluation, and passes through sequences of them. -/
structure CallCongruence (f : Position → Position) (rel : {α : Type} → Run σ α → Run τ α → Prop)
    (s : Setting σ) (t : Setting τ) (site : Command → Position → Prop) : Prop where
  pure : ∀ {α : Type} (a : α), rel (Pure.pure a) (Pure.pure a)
  bind : ∀ {α β : Type} {x : Run σ α} {y : Run τ α} {k : α → Run σ β} {l : α → Run τ β},
    rel x y → (∀ a, rel (k a) (l a)) → rel (x >>= k) (y >>= l)
  fault : ∀ {α : Type} {e : Fault}, e.isLoopLimit = false →
    rel (Run.fault e : Run σ α) (Run.fault (e.moved f))
  compared : ∀ left op right result, rel (Run.record (.compared left op right result))
    (Run.record (.compared left op right result))
  lookup : ∀ name, rel (Run.lookup name) (Run.lookup name)
  call : ∀ command args pos, site command pos →
    rel (Run.call s command args pos) (Run.call t command args (f pos))

/-- The same for all steps, also those that only statements take. -/
structure ExecutionCongruence (f : Position → Position)
    (rel : {α : Type} → Run σ α → Run τ α → Prop) (s : Setting σ) (t : Setting τ)
    (site : Command → Position → Prop) : Prop extends CallCongruence f rel s t site where
  assign : ∀ name value, rel (Run.assign name value) (Run.assign name value)
  enter : ∀ pos, rel (Run.enter pos) (Run.enter (f pos))

/-- Both settings stop a loop after as many iterations, and `rel` holds between the ways in which
the loop may end. -/
structure Lockstep (f : Position → Position) (rel : {α : Type} → Run σ α → Run τ α → Prop)
    (s : Setting σ) (t : Setting τ) (site : Command → Position → Prop) : Prop
    extends ExecutionCongruence f rel s t site where
  maxIterations : s.limits.maxIterations = t.limits.maxIterations
  patience : s.patience = t.patience
  giveUp : rel (throw .unfinished : Run σ Unit) (throw .unfinished)
  loopLimit : ∀ limit pos, rel (Run.fault (.loopLimit limit pos) : Run σ Unit)
    (Run.fault (.loopLimit limit (f pos)))
  loopLimitReached : ∀ limit pos, rel (Run.record (.loopLimitReached limit pos))
    (Run.record (.loopLimitReached limit (f pos)))
  loopFinished : ∀ done pos, rel (Run.record (.loopFinished done pos))
    (Run.record (.loopFinished done (f pos)))

/-- `rel` holds between equal single steps of an evaluation, and passes through sequences of
them. -/
structure EvaluationCongruence (f : Position → Position)
    (rel : {α : Type} → Run σ α → Run τ α → Prop) (s : Setting σ) (t : Setting τ) : Prop where
  maxWait : s.limits.maxWait = t.limits.maxWait
  pure : ∀ {α : Type} (a : α), rel (Pure.pure a) (Pure.pure a)
  bind : ∀ {α β : Type} {x : Run σ α} {y : Run τ α} {k : α → Run σ β} {l : α → Run τ β},
    rel x y → (∀ a, rel (k a) (l a)) → rel (x >>= k) (y >>= l)
  fault : ∀ {α : Type} {e : Fault}, e.isLoopLimit = false →
    rel (Run.fault e : Run σ α) (Run.fault (e.moved f))
  record : ∀ event, event.isStatement = false →
    rel (Run.record event) (Run.record (event.moved f))
  print : ∀ text pos, rel (Run.print text pos) (Run.print text (f pos))
  printError : ∀ text pos, rel (Run.printError text pos) (Run.printError text (f pos))
  lookup : ∀ name, rel (Run.lookup name) (Run.lookup name)
  ask : ∀ request, rel (Run.ask s.files request) (Run.ask t.files request)

structure Congruence (f : Position → Position) (rel : {α : Type} → Run σ α → Run τ α → Prop)
    (s : Setting σ) (t : Setting τ) : Prop extends EvaluationCongruence f rel s t where
  assign : ∀ name value, rel (Run.assign name value) (Run.assign name value)
  enter : ∀ pos, rel (Run.enter pos) (Run.enter (f pos))

variable {f : Position → Position} {rel : {α : Type} → Run σ α → Run τ α → Prop} {s : Setting σ}
  {t : Setting τ} {site : Command → Position → Prop}

/-! ## From calls to evaluations -/

namespace CallCongruence

theorem combine_moved (c : CallCongruence f rel s t site) (op : Operator) (left right : Value)
    (pos : Position) :
    rel (Run.combine op left right pos) (Run.combine op left right (f pos)) := by
  cases op with
  | add => exact c.pure _
  | sub =>
      rw [Run.combine, Run.combine]
      cases left.sub? right with
      | none => exact c.fault rfl
      | some value => exact c.pure value

mutual

theorem evaluate_moved (c : CallCongruence f rel s t site) (e : Expr) (h : e.CallsAt site) :
    rel (Run.evaluate s e) (Run.evaluate t (e.moved f)) := by
  cases e with
  | number x pos => rw [Expr.moved, Run.evaluate, Run.evaluate]; exact c.pure _
  | text content pos => rw [Expr.moved, Run.evaluate, Run.evaluate]; exact c.pure _
  | word name pos => rw [Expr.moved, Run.evaluate, Run.evaluate]; exact c.lookup name
  | binary op left right pos =>
      rw [Expr.moved, Run.evaluate, Run.evaluate]
      refine c.bind (c.evaluate_moved left (h.part (.head _))) fun a => ?_
      refine c.bind (c.evaluate_moved right (h.part (.tail _ (.head _)))) fun b => ?_
      exact c.combine_moved op a b pos
  | query command args pos =>
      rw [Expr.moved, Run.evaluate, Run.evaluate]
      refine c.bind (c.evaluateAll_moved args fun _ harg => h.part harg) fun values => ?_
      exact c.bind (c.call command values pos (h command args pos .here)) fun _ => c.pure _

theorem evaluateAll_moved (c : CallCongruence f rel s t site) (args : List Expr)
    (h : ∀ e ∈ args, e.CallsAt site) :
    rel (Run.evaluateAll s args) (Run.evaluateAll t (Expr.movedAll f args)) := by
  cases args with
  | nil => rw [Expr.movedAll, Run.evaluateAll, Run.evaluateAll]; exact c.pure _
  | cons first rest =>
      rw [Expr.movedAll, Run.evaluateAll, Run.evaluateAll]
      rw [List.forall_mem_cons] at h
      refine c.bind (c.evaluate_moved first h.1) fun a => ?_
      exact c.bind (c.evaluateAll_moved rest h.2) fun _ => c.pure _

end

theorem test_moved (c : CallCongruence f rel s t site) (condition : Condition)
    (hleft : condition.left.CallsAt site) (hright : condition.right.CallsAt site) :
    rel (Run.test s condition) (Run.test t (condition.moved f)) := by
  refine c.bind (c.evaluate_moved condition.left hleft) fun a => ?_
  refine c.bind (c.evaluate_moved condition.right hright) fun b => ?_
  exact c.bind (c.compared a _ b _) fun _ => c.pure _

end CallCongruence

/-! ## From evaluations to executions -/

def Loops (f : Position → Position) (rel : {α : Type} → Run σ α → Run τ α → Prop) (s : Setting σ)
    (t : Setting τ) : Prop :=
  ∀ (pos : Position) (condition : Run σ Bool) (condition' : Run τ Bool) (body : Run σ Unit)
    (body' : Run τ Unit), rel condition condition' → rel body body' →
    rel (iterate s.limits.maxIterations pos condition body s.patience 0)
      (iterate t.limits.maxIterations (f pos) condition' body' t.patience 0)

namespace ExecutionCongruence

theorem execute_simple_moved (c : ExecutionCongruence f rel s t site) {statement : Statement}
    (hsimple : statement.isSimple = true) (h : CallsAt site [statement]) :
    rel (Run.execute s statement) (Run.execute t (statement.moved f)) := by
  cases statement with
  | declare name value pos | assign name value pos =>
      rw [Statement.moved, Run.execute, Run.execute]
      have hvalue := h.operand (.head _) (.head _)
      refine c.bind (c.enter pos) fun _ => ?_
      exact c.bind (c.evaluate_moved value hvalue) fun a => c.assign name a
  | call command args pos =>
      rw [Statement.moved, Run.execute, Run.execute]
      have hargs : ∀ e ∈ args, e.CallsAt site := fun e he => h.operand (.head _) he
      refine c.bind (c.enter pos) fun _ => c.bind (c.evaluateAll_moved args hargs) fun values => ?_
      have hsite := h command args pos (.inl (.member (.head _)))
      exact c.bind (c.call command values pos hsite) fun _ => c.pure ()
  | branch | loop => cases hsimple

mutual

theorem execute_moved (c : ExecutionCongruence f rel s t site) (loops : Loops f rel s t)
    (statement : Statement) (h : CallsAt site [statement]) :
    rel (Run.execute s statement) (Run.execute t (statement.moved f)) := by
  cases statement with
  | declare | assign | call => exact c.execute_simple_moved rfl h
  | branch condition thenBlock elseBlock pos =>
      rw [Statement.moved, Run.execute, Run.execute]
      have hleft := h.operand (.head _) (.head _)
      have hright := h.operand (.head _) (.tail _ (.head _))
      apply c.bind (c.enter pos)
      intro _
      refine c.bind (c.test_moved condition hleft hright) fun result => ?_
      cases result with
      | true =>
          exact c.executeBlock_moved loops thenBlock (h.of_inside fun _ => .thenBlock (.head _))
      | false =>
          apply c.executeElse_moved loops elseBlock
          rintro block rfl
          exact h.of_inside fun _ => .elseBlock (.head _)
  | loop condition body pos =>
      rw [Statement.moved, Run.execute, Run.execute]
      have hleft := h.operand (.head _) (.head _)
      have hright := h.operand (.head _) (.tail _ (.head _))
      apply c.bind (c.enter pos)
      intro _
      exact loops pos _ _ _ _ (c.test_moved condition hleft hright)
        (c.executeBlock_moved loops body (h.of_inside fun _ => .body (.head _)))

theorem executeBlock_moved (c : ExecutionCongruence f rel s t site) (loops : Loops f rel s t)
    (block : List Statement) (h : CallsAt site block) :
    rel (Run.executeBlock s block) (Run.executeBlock t (Statement.movedBlock f block)) := by
  cases block with
  | nil => rw [Statement.movedBlock, Run.executeBlock, Run.executeBlock]; exact c.pure ()
  | cons first rest =>
      rw [Statement.movedBlock, Run.executeBlock, Run.executeBlock]
      refine c.bind (c.execute_moved loops first (h.mono (by simp))) fun _ => ?_
      exact c.executeBlock_moved loops rest (h.mono (List.subset_cons_self _ _))

theorem executeElse_moved (c : ExecutionCongruence f rel s t site) (loops : Loops f rel s t)
    (block : Option (List Statement)) (h : ∀ statements ∈ block, CallsAt site statements) :
    rel (Run.executeElse s block) (Run.executeElse t (Statement.movedElse f block)) := by
  cases block with
  | none => rw [Statement.movedElse, Run.executeElse, Run.executeElse]; exact c.pure ()
  | some block =>
      rw [Statement.movedElse, Run.executeElse, Run.executeElse]
      exact c.executeBlock_moved loops block (h block rfl)

end

end ExecutionCongruence

/-! ## Loops that are stopped alike -/

namespace Lockstep

theorem checkLimit_moved (c : Lockstep f rel s t site) (limit : Option Nat) (pos : Position)
    (done : Nat) :
    rel (Run.checkLimit limit pos done) (Run.checkLimit limit (f pos) done) := by
  cases limit with
  | none => exact c.pure ()
  | some limit =>
      rw [Run.checkLimit, Run.checkLimit]
      by_cases h : limit ≤ done
      · simp only [if_pos h]
        exact c.bind (c.loopLimitReached limit pos) fun _ => c.loopLimit limit pos
      · simp only [if_neg h]
        exact c.pure ()

theorem iterate_moved (c : Lockstep f rel s t site) (limit : Option Nat) (pos : Position)
    {condition : Run σ Bool} {condition' : Run τ Bool} {body : Run σ Unit} {body' : Run τ Unit}
    (hcondition : rel condition condition') (hbody : rel body body') (patience done : Nat) :
    rel (Run.iterate limit pos condition body patience done)
      (Run.iterate limit (f pos) condition' body' patience done) := by
  induction patience generalizing done with
  | zero => exact c.giveUp
  | succ patience ih =>
      rw [Run.iterate, Run.iterate]
      apply c.bind hcondition
      intro result
      cases result with
      | true =>
          apply c.bind (c.checkLimit_moved limit pos done)
          exact fun _ => c.bind hbody fun _ => ih (done + 1)
      | false => exact c.loopFinished done pos

theorem loops (c : Lockstep f rel s t site) : Loops f rel s t := by
  intro pos condition condition' body body' hcondition hbody
  rw [c.maxIterations, c.patience]
  exact c.iterate_moved _ pos hcondition hbody _ 0

theorem executeBlock_moved (c : Lockstep f rel s t site) (block : List Statement)
    (h : CallsAt site block) :
    rel (Run.executeBlock s block) (Run.executeBlock t (Statement.movedBlock f block)) :=
  c.toExecutionCongruence.executeBlock_moved c.loops block h

theorem execute (c : Lockstep id rel s t site) (statement : Statement)
    (h : CallsAt site [statement]) :
    rel (Run.execute s statement) (Run.execute t statement) := by
  have hmoved := c.toExecutionCongruence.execute_moved c.loops statement h
  rwa [Statement.moved_id] at hmoved

theorem executeBlock (c : Lockstep id rel s t site) (block : List Statement)
    (h : CallsAt site block) :
    rel (Run.executeBlock s block) (Run.executeBlock t block) := by
  have hmoved := c.executeBlock_moved block h
  rwa [Statement.movedBlock_id] at hmoved

end Lockstep

/-! ## From single steps to calls -/

namespace EvaluationCongruence

theorem forM (c : EvaluationCongruence f rel s t) {α : Type} {x : α → Run σ Unit}
    {y : α → Run τ Unit} {l : List α} (h : ∀ a ∈ l, rel (x a) (y a)) :
    rel (l.forM x) (l.forM y) := by
  induction l with
  | nil => exact c.pure ()
  | cons a l ih =>
      rw [List.forall_mem_cons] at h
      exact c.bind h.1 fun _ => ih h.2

theorem noteWait (c : EvaluationCongruence f rel s t) (requested : Nat) (pos : Position) :
    rel (Run.noteWait s.limits requested pos) (Run.noteWait t.limits requested (f pos)) := by
  rw [Run.noteWait, Run.noteWait, c.maxWait]
  cases t.limits.maxWait with
  | none => exact c.pure ()
  | some cap =>
      by_cases h : cap < requested
      · simp only [if_pos h]
        exact c.record (.waitCapped requested cap pos) rfl
      · simp only [if_neg h]
        exact c.pure ()

theorem perform (c : EvaluationCongruence f rel s t) (pos : Position) (action : Action) :
    rel (Run.perform s pos action) (Run.perform t (f pos) action) := by
  cases action with
  | ask request =>
      refine c.bind (c.ask request) fun answer => ?_
      -- What is noted of a request names no place.
      have hdetours : ∀ event ∈ request.detours answer.detour,
          rel (Run.record event) (Run.record event) := by
        intro event h
        obtain ⟨source, target, cause, rfl⟩ := Request.exists_of_mem_detours h
        exact c.record (.copiedInstead source target cause) rfl
      refine c.bind (c.forM hdetours) fun _ => ?_
      cases answer.result with
      | error e => exact c.pure _
      | ok reply =>
          have hnotes : ∀ event ∈ request.notes reply,
              rel (Run.record event) (Run.record event) := by
            intro event h
            obtain ⟨bytes, rfl⟩ := Request.exists_of_mem_notes h
            exact c.record (.copied bytes) rfl
          refine c.bind (c.forM hnotes) fun _ => ?_
          exact c.bind (c.forM fun line _ => c.print line pos) fun _ => c.pure _
  | wait duration =>
      rw [Run.perform, Run.perform]
      cases CommandError.milliseconds duration with
      | error e => exact c.pure _
      | ok requested =>
          exact c.bind (c.print _ pos) fun _ => c.bind (c.noteWait requested pos) fun _ => c.pure _

theorem dispatch (c : EvaluationCongruence f rel s t) (command : Command) (args : List Value)
    (pos : Position) :
    rel (Run.dispatch s command args pos) (Run.dispatch t command args (f pos)) := by
  rw [Run.dispatch, Run.dispatch]
  cases Action.ofCall? command args with
  | none => exact c.fault rfl
  | some action =>
      apply c.bind (c.record (.dispatched command args pos) rfl)
      exact fun _ => c.perform pos action

theorem call (c : EvaluationCongruence f rel s t) (command : Command) (args : List Value)
    (pos : Position) :
    rel (Run.call s command args pos) (Run.call t command args (f pos)) := by
  apply c.bind (c.dispatch command args pos)
  intro result
  cases result with
  | ok value => exact c.pure value
  | error e =>
      apply c.bind (c.record (.commandFailed command e pos) rfl)
      exact fun _ => c.bind (c.printError _ pos) fun _ => c.pure _

theorem calls (c : EvaluationCongruence f rel s t) : CallCongruence f rel s t fun _ _ => True where
  pure := c.pure
  bind := c.bind
  fault := c.fault
  compared left op right result := c.record (.compared left op right result) rfl
  lookup := c.lookup
  call command args pos _ := c.call command args pos

theorem evaluate (c : EvaluationCongruence id rel s t) (e : Expr) :
    rel (Run.evaluate s e) (Run.evaluate t e) := by
  have hmoved := c.calls.evaluate_moved e fun _ _ _ _ => trivial
  rwa [Expr.moved_id] at hmoved

theorem evaluateAll (c : EvaluationCongruence id rel s t) (args : List Expr) :
    rel (Run.evaluateAll s args) (Run.evaluateAll t args) := by
  have hmoved := c.calls.evaluateAll_moved args fun _ _ _ _ _ _ => trivial
  rwa [Expr.movedAll_id] at hmoved

theorem test (c : EvaluationCongruence id rel s t) (condition : Condition) :
    rel (Run.test s condition) (Run.test t condition) := by
  have hmoved := c.calls.test_moved condition (fun _ _ _ _ => trivial) fun _ _ _ _ => trivial
  rwa [Condition.moved_id] at hmoved

end EvaluationCongruence

namespace Congruence

theorem executions (c : Congruence f rel s t) : ExecutionCongruence f rel s t fun _ _ => True where
  toCallCongruence := c.calls
  assign := c.assign
  enter := c.enter

theorem execute_simple (c : Congruence id rel s t) {statement : Statement}
    (hsimple : statement.isSimple = true) :
    rel (Run.execute s statement) (Run.execute t statement) := by
  have hmoved := c.executions.execute_simple_moved hsimple fun _ _ _ _ => trivial
  rwa [Statement.moved_id] at hmoved

theorem execute (c : Congruence id rel s t) (loops : Loops id rel s t) (statement : Statement) :
    rel (Run.execute s statement) (Run.execute t statement) := by
  have hmoved := c.executions.execute_moved loops statement fun _ _ _ _ => trivial
  rwa [Statement.moved_id] at hmoved

theorem executeBlock (c : Congruence id rel s t) (loops : Loops id rel s t)
    (block : List Statement) : rel (Run.executeBlock s block) (Run.executeBlock t block) := by
  have hmoved := c.executions.executeBlock_moved loops block fun _ _ _ _ => trivial
  rwa [Statement.movedBlock_id] at hmoved

end Congruence

/-- What a run does depends on the file system and the longest wait alone, but for its loops. -/
theorem eq_congruence {s t : Setting σ} (hfiles : s.files = t.files)
    (hwait : s.limits.maxWait = t.limits.maxWait) : Congruence id Eq s t where
  maxWait := hwait
  pure _ := rfl
  bind hx hk := by rw [hx, funext hk]
  fault _ := by rw [Fault.moved_id]
  record _ _ := by rw [Event.moved_id]
  print _ _ := rfl
  printError _ _ := rfl
  lookup _ := rfl
  ask _ := by rw [hfiles]
  assign _ _ := rfl
  enter _ := rfl

end Run

end FileChores
