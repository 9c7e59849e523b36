import FileChores.Proofs.Run.Account
import FileChores.Proofs.Run.Standing

/-!
# What a fault blames

A run that is aborted names the node that stopped it: a subtraction that it came to and that one
operand turned out to be no number for, a call that is written with a wrong number of arguments, or
a loop at the limit. Whatever is printed carries the place of a call.
-/

namespace FileChores

open Run

variable {σ : Type} {α β : Type}

theorem Value.exists_text_of_sub? {a b : Value} (h : a.sub? b = none) :
    (∃ content, a = .text content) ∨ ∃ content, b = .text content := by
  cases a with
  | text content => exact .inl ⟨content, rfl⟩
  | number x =>
      cases b with
      | text content => exact .inr ⟨content, rfl⟩
      | number y => cases h

/-- How a message names a value: its type, and then the number or the text between quotes. -/
inductive Value.Described : Value → String → Prop
  | number (x : Float) : Described (.number x) ("Number " ++ Number.text x)
  | text (content : String) : Described (.text content) ("Text \"" ++ content ++ "\"")

theorem Value.described (a : Value) : a.Described a.describe := by
  cases a with
  | number x => exact .number x
  | text content => exact .text content

namespace Run

/-- Evaluating the expressions one after another from the first machine on comes to the node, in the
second machine. -/
inductive Comes (s : Setting σ) : List Expr → Machine σ → Expr → Machine σ → Prop
  | head {e : Expr} {rest : List Expr} {m : Machine σ} : Comes s (e :: rest) m e m
  | part {e node : Expr} {rest : List Expr} {m m' : Machine σ} : Comes s e.parts m node m' →
      Comes s (e :: rest) m node m'
  | tail {first node : Expr} {rest : List Expr} {m m' m'' : Machine σ} {value : Value} :
      result (evaluate s first) m = (.ok value, m') → Comes s rest m' node m'' →
      Comes s (first :: rest) m node m''

inductive Breaks (s : Setting σ) (m : Machine σ) : Expr → Fault → Prop
  | subtraction {left right : Expr} {pos : Position} {a b : Value} {m' : Machine σ} :
      result (evaluateAll s [left, right]) m = (.ok [a, b], m') → a.sub? b = none →
      Breaks s m (.binary .sub left right pos) (.textSubtraction a.describe b.describe pos)
  | query {command : Command} {args : List Expr} {pos : Position} :
      args.length ≠ command.arity →
      Breaks s m (.query command args pos) (.argumentCount command args.length pos)

def Blamed (s : Setting σ) (es : List Expr) (m : Machine σ) (fault : Fault) : Prop :=
  ∃ node m', Comes s es m node m' ∧ Breaks s m' node fault

variable {s : Setting σ} {m m' : Machine σ} {es rest : List Expr}

theorem Comes.append {node : Expr} (h : Comes s es m node m') (rest : List Expr) :
    Comes s (es ++ rest) m node m' := by
  induction h with
  | head => exact .head
  | part h => exact .part h
  | tail hfirst _ ih => exact .tail hfirst ih

theorem Comes.occurs {node : Expr} (h : Comes s es m node m') : ∃ e ∈ es, node.Occurs e := by
  induction h with
  | head => exact ⟨_, .head _, .here⟩
  | part _ ih =>
      obtain ⟨part, hpart, hoccurs⟩ := ih
      exact ⟨_, .head _, .part hpart hoccurs⟩
  | tail _ _ ih =>
      obtain ⟨e, he, hoccurs⟩ := ih
      exact ⟨e, .tail _ he, hoccurs⟩

theorem Comes.inside {node : Expr} {failing : Statement} {block : List Statement}
    (h : Comes s failing.operands m node m') (hinside : failing.Inside block) :
    node.Inside block := by
  obtain ⟨e, he, hoccurs⟩ := h.occurs
  exact ⟨failing, hinside, e, he, hoccurs⟩

namespace Blamed

variable {fault : Fault}

theorem append (h : Blamed s es m fault) (rest : List Expr) : Blamed s (es ++ rest) m fault := by
  obtain ⟨node, m', hcomes, hbreaks⟩ := h
  exact ⟨node, m', hcomes.append rest, hbreaks⟩

theorem part (e : Expr) (h : Blamed s e.parts m fault) : Blamed s [e] m fault := by
  obtain ⟨node, m', hcomes, hbreaks⟩ := h
  exact ⟨node, m', .part hcomes, hbreaks⟩

theorem tail {first : Expr} {value : Value} (hfirst : result (evaluate s first) m = (.ok value, m'))
    (h : Blamed s rest m' fault) : Blamed s (first :: rest) m fault := by
  obtain ⟨node, m'', hcomes, hbreaks⟩ := h
  exact ⟨node, m'', .tail hfirst hcomes, hbreaks⟩

end Blamed

/-- Started in the machine, the run faults only as `blame` says. -/
def FaultsOnly (blame : Fault → Prop) (x : Run σ α) (m : Machine σ) : Prop :=
  ∀ fault m', result x m = (.error (.fault fault), m') → blame fault

namespace FaultsOnly

variable {blame blame' : Fault → Prop}

theorem mono {x : Run σ α} (h : FaultsOnly blame x m)
    (hblame : ∀ fault, blame fault → blame' fault) : FaultsOnly blame' x m :=
  fun fault m' hresult => hblame fault (h fault m' hresult)

theorem of_ok {x : Run σ α} {a : α} (h : result x m = (.ok a, m')) : FaultsOnly blame x m := by
  intro fault m'' hresult
  rw [h] at hresult
  cases hresult

theorem of_fault {x : Run σ α} {fault : Fault} (h : result x m = (.error (.fault fault), m'))
    (hblame : blame fault) : FaultsOnly blame x m := by
  intro fault' m'' hresult
  rw [h] at hresult
  cases hresult
  exact hblame

theorem bind {x : Run σ α} {f : α → Run σ β} (hx : FaultsOnly blame x m)
    (hf : ∀ a m', result x m = (.ok a, m') → FaultsOnly blame (f a) m') :
    FaultsOnly blame (x >>= f) m := by
  intro fault m'' hresult
  rcases h : result x m with ⟨halt | a, m'⟩
  · rw [result_bind_error h] at hresult
    cases hresult
    exact hx fault _ h
  · rw [result_bind_ok h] at hresult
    exact hf a m' h fault m'' hresult

end FaultsOnly

/-! ## Expressions -/

theorem faultsOnly_call (s : Setting σ) (command : Command) (args : List Value) (pos : Position)
    (m : Machine σ) :
    FaultsOnly (fun fault => args.length ≠ command.arity ∧
      fault = .argumentCount command args.length pos) (call s command args pos) m := by
  intro fault m'
  apply result_call_cases (motive := fun ending => ending = (.error (.fault fault), m') →
    args.length ≠ command.arity ∧ fault = .argumentCount command args.length pos)
  · exact fun _ _ _ _ _ h => nomatch h
  · exact fun _ _ _ _ _ h => nomatch h
  · rintro hargs ⟨⟩
    exact ⟨hargs, rfl⟩

theorem faultsOnly_combine {op : Operator} {left right : Expr} {pos : Position} {a b : Value}
    {m₁ : Machine σ} (hleft : result (evaluate s left) m = (.ok a, m₁))
    (hright : result (evaluate s right) m₁ = (.ok b, m')) :
    FaultsOnly (Breaks s m (.binary op left right pos)) (combine op a b pos) m' := by
  cases op with
  | add => exact .of_ok rfl
  | sub =>
      rw [combine]
      cases hsub : a.sub? b with
      | some value => exact .of_ok rfl
      | none =>
          have hparts : result (evaluateAll s [left, right]) m = (.ok [a, b], m') := by
            rw [evaluateAll, result_bind_ok hleft, evaluateAll, evaluateAll, bind_assoc,
              result_bind_ok hright]
            rfl
          exact .of_fault (result_fault _ _) (.subtraction hparts hsub)

mutual

theorem faultsOnly_evaluate (s : Setting σ) (e : Expr) (m : Machine σ) :
    FaultsOnly (Blamed s [e] m) (evaluate s e) m := by
  cases e with
  | number x pos => rw [evaluate]; exact .of_ok rfl
  | text content pos => rw [evaluate]; exact .of_ok rfl
  | word name pos => rw [evaluate]; exact .of_ok rfl
  | binary op left right pos =>
      -- What an operand blames the node blames too, at the operand's place among its parts.
      rw [evaluate]
      have hleft := (faultsOnly_evaluate s left m).mono fun fault h =>
        Blamed.part (.binary op left right pos) (h.append [right])
      refine hleft.bind fun a m₁ ha => ?_
      have hright := (faultsOnly_evaluate s right m₁).mono fun fault h =>
        Blamed.part (.binary op left right pos) (h.tail ha)
      refine hright.bind fun b m₂ hb => ?_
      exact (faultsOnly_combine ha hb).mono fun fault h => ⟨_, m, .head, h⟩
  | query command args pos =>
      rw [evaluate]
      have hargs := (faultsOnly_evaluateAll s args m).mono fun fault h =>
        Blamed.part (.query command args pos) h
      refine hargs.bind fun values m₁ hvalues => ?_
      refine .bind ((faultsOnly_call s command values pos m₁).mono ?_) fun _ _ _ => .of_ok rfl
      rintro fault ⟨hlength, rfl⟩
      rw [length_of_evaluateAll hvalues] at hlength ⊢
      exact ⟨_, m, .head, .query hlength⟩

theorem faultsOnly_evaluateAll (s : Setting σ) (es : List Expr) (m : Machine σ) :
    FaultsOnly (Blamed s es m) (evaluateAll s es) m := by
  cases es with
  | nil => rw [evaluateAll]; exact .of_ok rfl
  | cons first rest =>
      rw [evaluateAll]
      have hfirst := (faultsOnly_evaluate s first m).mono fun fault h => h.append rest
      refine hfirst.bind fun a m₁ ha => ?_
      have hrest := (faultsOnly_evaluateAll s rest m₁).mono fun fault h => h.tail ha
      exact hrest.bind fun _ _ _ => .of_ok rfl

end

theorem faultsOnly_test (s : Setting σ) (condition : Condition) (m : Machine σ) :
    FaultsOnly (Blamed s [condition.left, condition.right] m) (test s condition) m := by
  have hleft := (faultsOnly_evaluate s condition.left m).mono fun fault h =>
    h.append [condition.right]
  refine hleft.bind fun a m₁ ha => ?_
  have hright := (faultsOnly_evaluate s condition.right m₁).mono fun fault h => h.tail ha
  exact hright.bind fun _ _ _ => .of_ok rfl

end Run

/-! ## Statements -/

def Machine.entered (m : Machine σ) (pos : Position) : Machine σ :=
  { m with pos := pos, trace := m.trace.push (.statement pos) }

theorem Run.FaultsOnly.enter {blame : Fault → Prop} {pos : Position} {f : Unit → Run σ α}
    {m : Machine σ} (h : FaultsOnly blame (f ()) (m.entered pos)) :
    FaultsOnly blame (Run.enter pos >>= f) m := by
  refine .bind (.of_ok rfl) fun _ m' hm' => ?_
  cases hm'
  exact h

inductive Statement.Blamed (s : Setting σ) (m : Machine σ) : Statement → Fault → Prop
  | operand {statement : Statement} {fault : Fault} : Run.Blamed s statement.operands m fault →
      Blamed s m statement fault
  | call {command : Command} {args : List Expr} {pos : Position} : args.length ≠ command.arity →
      Blamed s m (.call command args pos) (.argumentCount command args.length pos)

theorem Statement.faultsOnly_operands {s : Setting σ} {m : Machine σ} {x : Run σ α}
    (statement : Statement) (h : FaultsOnly (Run.Blamed s statement.operands m) x m) :
    FaultsOnly (statement.Blamed s m) x m :=
  h.mono fun _ hblamed => .operand hblamed

theorem Statement.faultsOnly_call (s : Setting σ) (command : Command) (args : List Expr)
    (pos : Position) (m : Machine σ) :
    FaultsOnly ((Statement.call command args pos).Blamed s (m.entered pos))
      (execute s (.call command args pos)) m := by
  rw [execute]
  have hargs := (Statement.call command args pos).faultsOnly_operands
    (faultsOnly_evaluateAll s args (m.entered pos))
  refine .enter (hargs.bind fun values m₁ hvalues => ?_)
  refine .bind ((Run.faultsOnly_call s command values pos m₁).mono ?_) fun _ _ _ => .of_ok rfl
  rintro fault ⟨hlength, rfl⟩
  rw [length_of_evaluateAll hvalues] at hlength ⊢
  exact .call hlength

namespace Pending

def entered (task : Pending) (m : Machine σ) : Machine σ :=
  match task.starts? with
  | some first => m.entered first.pos
  | none => m

/-- A step of a task blames its statement. -/
theorem faultsOnly_step (s : Setting σ) (task : Pending) (m : Machine σ) :
    FaultsOnly (fun fault => ∃ failing, task.statement? = some failing ∧
      failing.Blamed s (task.entered m) fault) (task.step s) m := by
  cases task with
  | statements block =>
      cases block with
      | nil => exact .of_ok rfl
      | cons first rest =>
          suffices h : FaultsOnly (first.Blamed s (m.entered first.pos))
              (step s (.statements (first :: rest))) m from
            h.mono fun fault hblamed => ⟨first, rfl, hblamed⟩
          cases first with
          | declare name value pos =>
              have hvalue := (Statement.declare name value pos).faultsOnly_operands
                (faultsOnly_evaluate s value (m.entered pos))
              refine FaultsOnly.bind ?_ fun _ _ _ => .of_ok rfl
              rw [execute]
              exact .enter (hvalue.bind fun _ _ _ => .of_ok rfl)
          | assign name value pos =>
              have hvalue := (Statement.assign name value pos).faultsOnly_operands
                (faultsOnly_evaluate s value (m.entered pos))
              refine FaultsOnly.bind ?_ fun _ _ _ => .of_ok rfl
              rw [execute]
              exact .enter (hvalue.bind fun _ _ _ => .of_ok rfl)
          | branch condition thenBlock elseBlock pos =>
              refine .enter (.bind ?_ fun result _ _ => ?_)
              · exact (Statement.branch condition thenBlock elseBlock pos).faultsOnly_operands
                  (faultsOnly_test s condition _)
              · cases result <;> exact .of_ok rfl
          | loop condition body pos => exact .enter (.of_ok rfl)
          | call command args pos =>
              exact .bind (Statement.faultsOnly_call s command args pos m) fun _ _ _ => .of_ok rfl
  | loop condition body pos done =>
      have hblame (fault : Fault) (h : Run.Blamed s [condition.left, condition.right] m fault) :
          ∃ failing, (Pending.loop condition body pos done).statement? = some failing ∧
            failing.Blamed s m fault := ⟨_, rfl, .operand h⟩
      refine .bind ((faultsOnly_test s condition m).mono hblame) fun result _ _ => ?_
      cases result with
      | true => exact .of_ok rfl
      | false => exact .bind (.of_ok rfl) fun _ _ _ => .of_ok rfl
  | iteration condition body pos done => exact .of_ok rfl

def PartOf (block : List Statement) : Pending → Prop
  | statements inner => ∀ statement : Statement, statement.Inside inner → statement.Inside block
  | loop condition body pos _ | iteration condition body pos _ =>
      (Statement.loop condition body pos).Inside block

variable {block : List Statement}

theorem PartOf.inside {task : Pending} {failing : Statement} (h : task.PartOf block)
    (hfailing : task.statement? = some failing) : failing.Inside block := by
  cases task with
  | statements inner =>
      cases inner with
      | nil => cases hfailing
      | cons first rest =>
          cases hfailing
          exact h _ (.member (.head _))
  | loop condition body pos done => cases hfailing; exact h
  | iteration condition body pos done => cases hfailing; exact h

theorem PartOf.rest {first : Statement} {rest : List Statement}
    (h : (statements (first :: rest)).PartOf block) : (statements rest).PartOf block :=
  fun statement hinside => h statement (hinside.mono (List.subset_cons_self _ _))

theorem partOf_step (s : Setting σ) {task : Pending} (h : task.PartOf block) :
    Returns (fun tasks => ∀ later ∈ tasks, later.PartOf block) (task.step s) := by
  cases task with
  | statements inner =>
      cases inner with
      | nil => exact .pure (by simp)
      | cons first rest =>
          cases first with
          | branch condition thenBlock elseBlock pos =>
              refine .bind _ fun _ => .bind _ fun result => ?_
              cases result with
              | true =>
                  have hthen : (statements thenBlock).PartOf block :=
                    fun statement hinside => h statement (.thenBlock (.head _) hinside)
                  exact .pure (by simpa using ⟨hthen, h.rest⟩)
              | false =>
                  have helse : (statements (elseBlock.getD [])).PartOf block := by
                    intro statement hinside
                    cases elseBlock with
                    | none => exact absurd hinside statement.not_inside_nil
                    | some elseBlock => exact h statement (.elseBlock (.head _) hinside)
                  exact .pure (by simpa using ⟨helse, h.rest⟩)
          | loop condition body pos =>
              have hloop : (Pending.loop condition body pos 0).PartOf block :=
                h _ (.member (.head _))
              exact .bind _ fun _ => .pure (by simpa using ⟨hloop, h.rest⟩)
          | _ => exact .bind _ fun _ => .pure (by simpa using h.rest)
  | loop condition body pos done =>
      refine .bind _ fun result => ?_
      cases result with
      | true =>
          have hiteration : (Pending.iteration condition body pos done).PartOf block := h
          exact .pure (by simpa using hiteration)
      | false => exact .bind _ fun _ => .pure (by simp)
  | iteration condition body pos done =>
      have hbody : (statements body).PartOf block :=
        fun statement hinside => Statement.Inside.trans h (.body (.head _) hinside)
      have hloop : (Pending.loop condition body pos (done + 1)).PartOf block := h
      exact .pure (by simpa using ⟨hbody, hloop⟩)

end Pending

/-! ## Whole runs -/

namespace Point

def Evaluates (s : Setting σ) (p : Point σ) (node : Expr) (m : Machine σ) : Prop :=
  ∃ task rest failing, p.tasks = task :: rest ∧ task.statement? = some failing ∧
    Comes s failing.operands (task.entered p.machine) node m

theorem blamed_of_end? {s : Setting σ} {p : Point σ} {fault : Fault} {m : Machine σ}
    (h : p.end? s = some (.error (.fault fault), m)) :
    ∃ task rest failing, p.tasks = task :: rest ∧ task.statement? = some failing ∧
      failing.Blamed s (task.entered p.machine) fault := by
  obtain ⟨task, rest, htasks, hresult⟩ := exists_of_end?_error h
  obtain ⟨failing, hfailing, hblamed⟩ := task.faultsOnly_step s p.machine fault m hresult
  exact ⟨task, rest, failing, htasks, hfailing, hblamed⟩

end Point

namespace Program

open Point

variable (system : FileSystem σ) (limits : Limits) (patience : Nat) (program : Program) (files : σ)

theorem partOf_point (wait : Option Nat) {n : Nat} {p : Point σ}
    (h : program.point system wait files n = some p) :
    ∀ task ∈ p.tasks, task.PartOf program.body := by
  induction n generalizing p with
  | zero =>
      cases h
      simp [firstPoint, Pending.PartOf]
  | succ n ih =>
      rw [point_succ] at h
      obtain ⟨q, hq, hnext⟩ := Option.bind_eq_some_iff.1 h
      refine forall_next? hnext (ih hq) fun task htask => ?_
      exact task.partOf_step _ (ih hq task (List.mem_of_mem_head? htask))

theorem exists_point_of_aborted {fault : Fault}
    (h : (program.runWith ⟨system, limits, patience⟩ files).1 = .aborted fault) :
    ∃ n p m, program.point system limits.maxWait files n = some p ∧
      program.runWith ⟨system, limits, patience⟩ files = conclude (.error (.fault fault), m) ∧
      Stops ⟨system, limits, patience⟩ p (.fault fault) m := by
  have hends := ends_points program files ⟨system, limits, patience⟩
  rw [runWith_eq] at h ⊢
  obtain ⟨m, hm⟩ := conclude_eq_aborted h
  rw [hm] at hends ⊢
  obtain ⟨n, p, hwalk, hstops⟩ := hends
  exact ⟨n, p, m, hwalk.after_eq, rfl, hstops⟩

/-- What a run that is not stopped at a limit fails in. -/
theorem exists_failing_of_aborted {fault : Fault} (hfault : fault.isLoopLimit = false)
    (h : (program.runWith ⟨system, limits, patience⟩ files).1 = .aborted fault) :
    ∃ n p task rest failing, program.point system limits.maxWait files n = some p ∧
      (p.end? (system.unbounded limits.maxWait)).map conclude =
        some (program.runWith ⟨system, limits, patience⟩ files) ∧
      p.tasks = task :: rest ∧ task.statement? = some failing ∧ failing.Inside program.body ∧
      failing.Blamed (system.unbounded limits.maxWait) (task.entered p.machine) fault := by
  obtain ⟨n, p, m, hp, hrun, hstops⟩ :=
    exists_point_of_aborted system limits patience program files h
  cases hstops with
  | limit _ _ => cases hfault
  | fault _ hend =>
      obtain ⟨task, rest, failing, htasks, hfailing, hblamed⟩ := blamed_of_end? hend
      have hpart : task.PartOf program.body :=
        partOf_point system program files limits.maxWait hp task (by simp [htasks])
      refine ⟨n, p, task, rest, failing, hp, ?_, htasks, hfailing, hpart.inside hfailing, hblamed⟩
      rw [hrun]
      exact congrArg (Option.map conclude) hend

theorem aborted_textSubtraction {l r : String} {pos : Position}
    (h : (program.runWith ⟨system, limits, patience⟩ files).1 =
      .aborted (.textSubtraction l r pos)) :
    ∃ (a b : Value) (left right : Expr) (n : Nat) (p : Point σ) (m m' : Machine σ),
      l = a.describe ∧ r = b.describe ∧
      (Expr.binary .sub left right pos).Inside program.body ∧
      program.point system limits.maxWait files n = some p ∧
      (p.end? (system.unbounded limits.maxWait)).map conclude =
        some (program.runWith ⟨system, limits, patience⟩ files) ∧
      p.Evaluates (system.unbounded limits.maxWait) (.binary .sub left right pos) m ∧
      result (evaluateAll (system.unbounded limits.maxWait) [left, right]) m = (.ok [a, b], m') ∧
      a.sub? b = none := by
  obtain ⟨n, p, task, rest, failing, hp, hend, htasks, hfailing, hinside, hblamed⟩ :=
    exists_failing_of_aborted system limits patience program files rfl h
  obtain ⟨node, m, hcomes, hbreaks⟩ := hblamed
  cases hbreaks with
  | subtraction hparts hsub =>
      exact ⟨_, _, _, _, n, p, m, _, rfl, rfl, hcomes.inside hinside, hp, hend,
        ⟨task, rest, failing, htasks, hfailing, hcomes⟩, hparts, hsub⟩

theorem aborted_argumentCount {command : Command} {given : Nat} {pos : Position}
    (h : (program.runWith ⟨system, limits, patience⟩ files).1 =
      .aborted (.argumentCount command given pos)) :
    ∃ args, Calls program.body command args pos ∧ given = args.length ∧
      args.length ≠ command.arity := by
  obtain ⟨n, p, task, rest, failing, -, -, -, -, hinside, hblamed⟩ :=
    exists_failing_of_aborted system limits patience program files rfl h
  cases hblamed with
  | call hlength => exact ⟨_, .inl hinside, rfl, hlength⟩
  | operand hblamed =>
      obtain ⟨node, m, hcomes, hbreaks⟩ := hblamed
      cases hbreaks with
      | query hlength => exact ⟨_, .inr (hcomes.inside hinside), rfl, hlength⟩

theorem aborted_loopLimit {limit : Nat} {pos : Position}
    (h : (program.runWith ⟨system, limits, patience⟩ files).1 = .aborted (.loopLimit limit pos)) :
    limits.maxIterations = some limit ∧
      ∃ condition body, (Statement.loop condition body pos).Inside program.body := by
  obtain ⟨n, p, m, hp, -, hstops⟩ := exists_point_of_aborted system limits patience program files h
  cases hstops with
  | fault hcut _ => cases hcut
  | limit hlimit hstarts =>
      obtain ⟨condition, body, rest, htasks⟩ := hstarts
      have hpart := partOf_point system program files limits.maxWait hp
        (.iteration condition body pos limit) (by simp [htasks])
      exact ⟨hlimit, condition, body, hpart⟩

theorem calls_of_mem_lines {line : Line}
    (h : line ∈ (program.runWith ⟨system, limits, patience⟩ files).2.terminal.lines.toList) :
    ∃ command args, Calls program.body command args line.pos := by
  have hlogged : system.logged.LooksLike Prod.fst system := fun _ _ => rfl
  rw [program.runWith_seen hlogged limits patience (files, [])] at h
  obtain ⟨deeds, -, -, hprinted, hdeeds⟩ := runWith_deeds system limits patience program files
  change line ∈ (program.runWith ⟨system.logged, limits, patience⟩
    (files, [])).2.terminal.lines.toList at h
  rw [hprinted] at h
  obtain ⟨deed, hdeed, hline⟩ := List.mem_flatMap.1 h
  obtain ⟨args, hcalls⟩ := hdeeds deed hdeed
  rw [Deed.pos_of_mem_lines hline]
  exact ⟨deed.command, args, hcalls⟩

/-- A fault blames the right node of the program: a subtraction that the run came to, in the words
for the values of its operands, one of them a text; a call with a wrong number of arguments; or a
loop, if there is a limit. A program without any of these is never aborted. Every line that is
printed carries the place of a call. -/
theorem runWith_blames :
    (∀ l r pos, (program.runWith ⟨system, limits, patience⟩ files).1 =
        .aborted (.textSubtraction l r pos) →
      ∃ (a b : Value) (left right : Expr) (n : Nat) (p : Point σ) (m m' : Machine σ),
        a.Described l ∧ b.Described r ∧
        ((∃ content, a = .text content) ∨ ∃ content, b = .text content) ∧
        (Expr.binary .sub left right pos).Inside program.body ∧
        program.point system limits.maxWait files n = some p ∧
        (p.end? (system.unbounded limits.maxWait)).map conclude =
          some (program.runWith ⟨system, limits, patience⟩ files) ∧
        p.Evaluates (system.unbounded limits.maxWait) (.binary .sub left right pos) m ∧
        result (evaluateAll (system.unbounded limits.maxWait) [left, right]) m =
          (.ok [a, b], m')) ∧
    (∀ command given pos, (program.runWith ⟨system, limits, patience⟩ files).1 =
        .aborted (.argumentCount command given pos) →
      ∃ args, Calls program.body command args pos ∧ given = args.length ∧
        args.length ≠ command.arity) ∧
    (∀ limit pos, (program.runWith ⟨system, limits, patience⟩ files).1 =
        .aborted (.loopLimit limit pos) →
      limits.maxIterations = some limit ∧
        ∃ condition body, (Statement.loop condition body pos).Inside program.body) ∧
    ((∀ left right pos, ¬ (Expr.binary .sub left right pos).Inside program.body) →
      (∀ command args pos, Calls program.body command args pos → args.length = command.arity) →
      limits.maxIterations = none →
      ∀ fault, (program.runWith ⟨system, limits, patience⟩ files).1 ≠ .aborted fault) ∧
    ∀ line ∈ (program.runWith ⟨system, limits, patience⟩ files).2.terminal.lines.toList,
      ∃ command args, Calls program.body command args line.pos := by
  refine ⟨fun l r pos h => ?_, fun command given pos h => ?_, fun limit pos h => ?_, ?_, ?_⟩
  · obtain ⟨a, b, left, right, n, p, m, m', rfl, rfl, hinside, hp, hend, hevaluates, hparts,
      hsub⟩ := aborted_textSubtraction system limits patience program files h
    exact ⟨a, b, left, right, n, p, m, m', a.described, b.described,
      Value.exists_text_of_sub? hsub, hinside, hp, hend, hevaluates, hparts⟩
  · exact aborted_argumentCount system limits patience program files h
  · exact aborted_loopLimit system limits patience program files h
  · intro hsub hcount hlimit fault h
    cases fault with
    | textSubtraction l r pos =>
        obtain ⟨a, b, left, right, n, p, m, m', -, -, hinside, -⟩ :=
          aborted_textSubtraction system limits patience program files h
        exact hsub left right pos hinside
    | argumentCount command given pos =>
        obtain ⟨args, hcalls, -, hne⟩ :=
          aborted_argumentCount system limits patience program files h
        exact hne (hcount command args pos hcalls)
    | loopLimit limit pos =>
        obtain ⟨hsome, -⟩ := aborted_loopLimit system limits patience program files h
        rw [hlimit] at hsome
        cases hsome
  · intro line hline
    exact calls_of_mem_lines system limits patience program files hline

end Program

end FileChores
