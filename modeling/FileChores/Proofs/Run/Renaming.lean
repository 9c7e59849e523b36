import FileChores.Proofs.Renamed
import FileChores.Proofs.Run.Evaluating
import FileChores.Proofs.Run.Firing

/-!
# Renaming a variable

A bare word that is not bound stands for its own name, so names show in what a script does. They do
not where the variable is bound whenever it is read: then a script that has another name for it,
one that it does not use, does the same.
-/

namespace FileChores

open Run

variable {σ α β : Type} {x y : String}

def Environment.Renames (x y : String) (env env' : Environment) : Prop :=
  ∀ name, env'.get? name = if name = y then env.get? x else if name = x then none else env.get? name

namespace Environment.Renames

variable {env env' : Environment}

theorem insert (h : env.Renames x y env') {name : String} (hname : name ≠ y) (value : Value) :
    (env.insert name value).Renames x y (env'.insert (replaceName x y name) value) := by
  intro other
  rw [get?_insert, get?_insert, get?_insert, h other, replaceName]
  by_cases hx : name = x <;> grind

theorem lookup (h : env.Renames x y env') {name : String} (hname : name ≠ y)
    (hbound : name = x → env.contains x = true) :
    (env'.get? (replaceName x y name)).getD (.text (replaceName x y name)) =
      (env.get? name).getD (.text name) := by
  rw [h, replaceName]
  by_cases hx : name = x
  · subst hx
    have hsome := contains_iff.1 (hbound rfl)
    obtain ⟨value, hvalue⟩ := Option.ne_none_iff_exists'.1 hsome
    rw [if_pos rfl, if_pos rfl, hvalue]
    rfl
  · rw [if_neg hx, if_neg hname, if_neg hx]

end Environment.Renames

/-- The same machine but for the name of the variable, and for its trace. -/
structure Machine.Renames (x y : String) (m m' : Machine σ) : Prop where
  environment : m.environment.Renames x y m'.environment
  terminal : m.terminal = m'.terminal
  pos : m.pos = m'.pos
  files : m.files = m'.files

theorem Machine.Renames.advance {m m' : Machine σ} (h : m.Renames x y m')
    (events events' : List Event) (lines : List Line) (files : σ) :
    (m.advance events lines files).Renames x y (m'.advance events' lines files) where
  environment := h.environment
  terminal := congrArg (lines.foldl Terminal.push) h.terminal
  pos := h.pos
  files := rfl

namespace Run

/-- From these two machines on the runs end alike. Which names a run may read depends on the
machines that it comes to, so the relation is between runs from given machines. -/
abbrev RenamesFrom (x y : String) (run run' : Run σ α) (m m' : Machine σ) : Prop :=
  EndsAlike id (Machine.Renames x y) (result run m) (result run' m')

/-! ## Single steps -/

section

variable {m m' : Machine σ}

theorem renames_pure (h : m.Renames x y m') (a : α) :
    RenamesFrom x y (pure a : Run σ α) (pure a) m m' :=
  ⟨rfl, h⟩

theorem renames_throw (h : m.Renames x y m') (halt : Halt) :
    RenamesFrom x y (throw halt : Run σ α) (throw halt) m m' :=
  .of_eq rfl h

theorem renames_record (h : m.Renames x y m') (event event' : Event) :
    RenamesFrom x y (record event : Run σ Unit) (record event') m m' :=
  ⟨rfl, h.environment, h.terminal, h.pos, h.files⟩

theorem renames_enter (h : m.Renames x y m') (pos : Position) :
    RenamesFrom x y (enter pos : Run σ Unit) (enter pos) m m' :=
  ⟨rfl, h.environment, h.terminal, rfl, h.files⟩

theorem renames_assign (h : m.Renames x y m') {name : String} (hname : name ≠ y) (value : Value) :
    RenamesFrom x y (assign name value : Run σ Unit) (assign (replaceName x y name) value) m m' :=
  ⟨rfl, h.environment.insert hname value, h.terminal, h.pos, h.files⟩

theorem renames_lookup (h : m.Renames x y m') {name : String} (hname : name ≠ y)
    (hbound : name = x → m.environment.contains x = true) :
    RenamesFrom x y (lookup name : Run σ Value) (lookup (replaceName x y name)) m m' :=
  ⟨congrArg Except.ok (h.environment.lookup hname hbound), h⟩

theorem renames_combine (h : m.Renames x y m') (op : Operator) (left right : Value)
    (pos : Position) :
    RenamesFrom x y (combine op left right pos : Run σ Value) (combine op left right pos) m m' := by
  cases op with
  | add => exact renames_pure h _
  | sub =>
      rw [combine]
      cases left.sub? right with
      | none => exact renames_throw h _
      | some value => exact renames_pure h value

theorem renames_call (s : Setting σ) (h : m.Renames x y m') (command : Command) (args : List Value)
    (pos : Position) :
    RenamesFrom x y (call s command args pos) (call s command args pos) m m' := by
  by_cases hargs : args.length = command.arity
  · obtain ⟨action, haction⟩ := Action.ofCall?_of_length hargs
    cases action with
    | ask request =>
        obtain ⟨events, -, hresult⟩ := result_call_ask s haction pos m
        obtain ⟨events', -, hresult'⟩ := result_call_ask s haction pos m'
        rw [← h.files] at hresult'
        rw [RenamesFrom, hresult, hresult']
        exact ⟨rfl, h.advance _ _ _ _⟩
    | wait duration =>
        obtain ⟨events, -, hresult⟩ := result_call_wait s haction pos m
        obtain ⟨events', -, hresult'⟩ := result_call_wait s haction pos m'
        rw [← h.files] at hresult'
        rw [RenamesFrom, hresult, hresult']
        exact ⟨rfl, h.advance _ _ _ _⟩
  · rw [RenamesFrom, result_call_none s hargs, result_call_none s hargs]
    exact .of_eq rfl h

theorem renames_checkLimit (h : m.Renames x y m') (limit : Option Nat) (pos : Position)
    (done : Nat) :
    RenamesFrom x y (checkLimit limit pos done : Run σ Unit) (checkLimit limit pos done) m m' := by
  rcases limit_le_or_lt limit done with ⟨limit, rfl, hle⟩ | hlt
  · rw [RenamesFrom, checkLimit_of_le pos hle, checkLimit_of_le pos hle]
    exact .of_eq rfl ⟨h.environment, h.terminal, h.pos, h.files⟩
  · rw [checkLimit_of_lt pos hlt]
    exact renames_pure h ()

end

/-! ## Expressions and conditions -/

/-- Evaluating the expressions one after another, no variable `y` is read, and `x` is bound where it
is read. -/
structure Readable (s : Setting σ) (x y : String) (es : List Expr) (m : Machine σ) : Prop where
  lacks : ∀ e ∈ es, ∀ pos, ¬ (Expr.word y pos).Occurs e
  bound : ∀ pos there, Comes s es m (.word x pos) there → there.environment.contains x = true

namespace Readable

variable {s : Setting σ} {m m' : Machine σ} {e : Expr} {es : List Expr}

theorem head (h : Readable s x y (e :: es) m) : Readable s x y [e] m where
  lacks := by
    rintro e' he'
    obtain rfl : e' = e := List.mem_singleton.1 he'
    exact h.lacks e' (.head _)
  bound pos there hcomes := h.bound pos there (hcomes.append es)

theorem tail (h : Readable s x y (e :: es) m) {value : Value}
    (he : result (evaluate s e) m = (.ok value, m')) : Readable s x y es m' where
  lacks e' he' := h.lacks e' (.tail _ he')
  bound pos there hcomes := h.bound pos there (.tail he hcomes)

theorem parts (h : Readable s x y [e] m) : Readable s x y e.parts m where
  lacks _ hpart pos hoccurs := h.lacks e (.head _) pos (.part hpart hoccurs)
  bound pos there hcomes := h.bound pos there (.part hcomes)

end Readable

mutual

theorem renames_evaluate (s : Setting σ) (e : Expr) {m m' : Machine σ} (h : m.Renames x y m')
    (hread : Readable s x y [e] m) :
    RenamesFrom x y (evaluate s e) (evaluate s (e.renamed (replaceName x y))) m m' := by
  cases e with
  | number value pos => rw [Expr.renamed, evaluate]; exact renames_pure h _
  | text content pos => rw [Expr.renamed, evaluate]; exact renames_pure h _
  | word name pos =>
      rw [Expr.renamed, evaluate, evaluate]
      have hname : name ≠ y := by
        rintro rfl
        exact hread.lacks _ (.head _) pos .here
      refine renames_lookup h hname ?_
      rintro rfl
      exact hread.bound pos m .head
  | binary op left right pos =>
      rw [Expr.renamed, evaluate, evaluate]
      have hparts : Readable s x y [left, right] m := hread.parts
      refine (renames_evaluate s left h hparts.head).bind fun a n n' hleft hn => ?_
      have hright := hparts.tail hleft
      refine (renames_evaluate s right hn hright).bind fun b k k' _ hk => ?_
      exact renames_combine hk op a b pos
  | query command args pos =>
      rw [Expr.renamed, evaluate, evaluate]
      refine (renames_evaluateAll s args h hread.parts).bind fun values n n' _ hn => ?_
      exact (renames_call s hn command values pos).bind fun _ _ _ _ hk => renames_pure hk _

theorem renames_evaluateAll (s : Setting σ) (es : List Expr) {m m' : Machine σ}
    (h : m.Renames x y m') (hread : Readable s x y es m) :
    RenamesFrom x y (evaluateAll s es) (evaluateAll s (Expr.renamedAll (replaceName x y) es)) m
      m' := by
  cases es with
  | nil => rw [Expr.renamedAll, evaluateAll]; exact renames_pure h _
  | cons first rest =>
      rw [Expr.renamedAll, evaluateAll, evaluateAll]
      refine (renames_evaluate s first h hread.head).bind fun a n n' hfirst hn => ?_
      exact (renames_evaluateAll s rest hn (hread.tail hfirst)).bind fun _ _ _ _ hk =>
        renames_pure hk _

end

theorem renames_test (s : Setting σ) (condition : Condition) {m m' : Machine σ}
    (h : m.Renames x y m') (hread : Readable s x y [condition.left, condition.right] m) :
    RenamesFrom x y (test s condition) (test s (condition.renamed (replaceName x y))) m m' := by
  refine (renames_evaluate s condition.left h hread.head).bind fun a n n' hleft hn => ?_
  refine (renames_evaluate s condition.right hn (hread.tail hleft)).bind fun b k k' _ hk => ?_
  exact (renames_record hk _ _).bind fun _ _ _ _ hi => renames_pure hi _

end Run

/-! ## Statements -/

structure Renamable (s : Setting σ) (x y : String) (block : List Statement) (m : Machine σ) :
    Prop where
  lacks : Lacks block y
  bound : ReadsBound s x block m

namespace Renamable

variable {s : Setting σ} {m m₁ m₂ m' : Machine σ} {condition : Condition} {pos : Position}
  {first : Statement} {thenBlock body rest : List Statement} {elseBlock : Option (List Statement)}

theorem operands (h : Renamable s x y (first :: rest) m) :
    Readable s x y first.operands (m.entered first.pos) where
  lacks _ he := h.lacks.operand (.head _) he
  bound pos there hcomes := h.bound pos there ⟨first, m, .here, .operand hcomes⟩

theorem again (h : Renamable s x y (.loop condition body pos :: rest) m) {n : Nat}
    (hturns : Turns s condition body n (m.entered pos) m₁) :
    Readable s x y [condition.left, condition.right] m₁ where
  lacks _ he := h.lacks.operand (.head _) he
  bound pos there hcomes := h.bound pos there ⟨_, m, .here, .again hturns hcomes⟩

theorem later (h : Renamable s x y (first :: rest) m)
    (hfirst : result (execute s first) m = (.ok (), m')) : Renamable s x y rest m' where
  lacks := h.lacks.mono (List.subset_cons_self _ _)
  bound := by
    rintro pos there ⟨statement, here, hcomes, hevaluates⟩
    exact h.bound pos there ⟨statement, here, .later hfirst hcomes, hevaluates⟩

theorem chosen (h : Renamable s x y (.branch condition thenBlock elseBlock pos :: rest) m)
    (htest : result (enter pos >>= fun _ => test s condition) m = (.ok true, m')) :
    Renamable s x y thenBlock m' where
  lacks := h.lacks.of_inside fun _ => .thenBlock (.head _)
  bound := by
    rintro pos there ⟨statement, here, hcomes, hevaluates⟩
    exact h.bound pos there ⟨statement, here, .thenBlock htest hcomes, hevaluates⟩

theorem otherwise {block : List Statement}
    (h : Renamable s x y (.branch condition thenBlock (some block) pos :: rest) m)
    (htest : result (enter pos >>= fun _ => test s condition) m = (.ok false, m')) :
    Renamable s x y block m' where
  lacks := h.lacks.of_inside fun _ => .elseBlock (.head _)
  bound := by
    rintro pos there ⟨statement, here, hcomes, hevaluates⟩
    exact h.bound pos there ⟨statement, here, .elseBlock htest hcomes, hevaluates⟩

theorem iteration (h : Renamable s x y (.loop condition body pos :: rest) m) {n : Nat}
    (hturns : Turns s condition body n (m.entered pos) m₁)
    (htest : result (test s condition) m₁ = (.ok true, m₂)) (hallows : s.Allows n) :
    Renamable s x y body m₂ where
  lacks := h.lacks.of_inside fun _ => .body (.head _)
  bound := by
    rintro pos there ⟨statement, here, hcomes, hevaluates⟩
    exact h.bound pos there ⟨statement, here, .body rfl hturns htest hallows hcomes, hevaluates⟩

end Renamable

namespace Run

/-- The turns that a loop has made say in which machines its condition and body are come to. -/
theorem renames_iterate {s : Setting σ} {condition condition' : Condition}
    {body body' : List Statement} {pos : Position} {m₀ : Machine σ}
    (hcondition : ∀ {n m₁ m₁'}, Turns s condition body n m₀ m₁ → m₁.Renames x y m₁' →
      RenamesFrom x y (test s condition) (test s condition') m₁ m₁')
    (hbody : ∀ {n m₁ m₂ m₂'}, Turns s condition body n m₀ m₁ →
      result (test s condition) m₁ = (.ok true, m₂) → s.Allows n → m₂.Renames x y m₂' →
      RenamesFrom x y (executeBlock s body) (executeBlock s body') m₂ m₂')
    (patience : Nat) {done : Nat} {m m' : Machine σ} (hturns : Turns s condition body done m₀ m)
    (h : m.Renames x y m') :
    RenamesFrom x y
      (iterate s.limits.maxIterations pos (test s condition) (executeBlock s body) patience done)
      (iterate s.limits.maxIterations pos (test s condition') (executeBlock s body') patience done)
      m m' := by
  induction patience generalizing done m m' with
  | zero => exact renames_throw h .unfinished
  | succ patience ih =>
      rw [iterate, iterate]
      refine (hcondition hturns h).bind fun holds n n' htest hn => ?_
      cases holds with
      | false => exact renames_record hn _ _
      | true =>
          refine (renames_checkLimit hn _ pos done).bind fun _ k k' hcheck hk => ?_
          obtain ⟨rfl, hallows⟩ := of_checkLimit hcheck
          refine (hbody hturns htest hallows hk).bind fun _ i i' hrun hi => ?_
          exact ih (.turn hturns htest hallows hrun) hi

mutual

theorem renames_execute (s : Setting σ) (first : Statement) (rest : List Statement)
    {m m' : Machine σ} (h : m.Renames x y m') (hread : Renamable s x y (first :: rest) m) :
    RenamesFrom x y (execute s first) (execute s (first.renamed (replaceName x y))) m m' := by
  cases first with
  | declare name value pos | assign name value pos =>
      rw [Statement.renamed, execute, execute]
      refine (renames_enter h pos).bind fun _ n n' hentered hn => ?_
      cases hentered
      refine (renames_evaluate s value hn hread.operands).bind fun a k k' _ hk => ?_
      exact renames_assign hk (hread.lacks.target_ne (.head _) rfl) a
  | branch condition thenBlock elseBlock pos =>
      rw [Statement.renamed, execute, execute, ← bind_assoc, ← bind_assoc]
      have htest : RenamesFrom x y (enter pos >>= fun _ => test s condition)
          (enter pos >>= fun _ => test s (condition.renamed (replaceName x y))) m m' := by
        refine (renames_enter h pos).bind fun _ n n' hentered hn => ?_
        cases hentered
        exact renames_test s condition hn hread.operands
      refine htest.bind fun holds n n' hresult hn => ?_
      cases holds with
      | true => exact renames_executeBlock s thenBlock hn (hread.chosen hresult)
      | false =>
          rw [if_neg Bool.false_ne_true, if_neg Bool.false_ne_true]
          cases elseBlock with
          | none =>
              rw [Statement.renamedElse, executeElse]
              exact renames_pure hn ()
          | some block =>
              rw [Statement.renamedElse, executeElse, executeElse]
              exact renames_executeBlock s block hn (hread.otherwise hresult)
  | loop condition body pos =>
      rw [Statement.renamed, execute, execute]
      refine (renames_enter h pos).bind fun _ n n' hentered hn => ?_
      cases hentered
      refine renames_iterate (fun hturns hk => ?_) (fun hturns htest hallows hk => ?_) s.patience
        (.none _) hn
      · exact renames_test s condition hk (hread.again hturns)
      · exact renames_executeBlock s body hk (hread.iteration hturns htest hallows)
  | call command args pos =>
      rw [Statement.renamed, execute, execute]
      refine (renames_enter h pos).bind fun _ n n' hentered hn => ?_
      cases hentered
      refine (renames_evaluateAll s args hn hread.operands).bind fun values k k' _ hk => ?_
      exact (renames_call s hk command values pos).bind fun _ _ _ _ hi => renames_pure hi ()

theorem renames_executeBlock (s : Setting σ) (block : List Statement) {m m' : Machine σ}
    (h : m.Renames x y m') (hread : Renamable s x y block m) :
    RenamesFrom x y (executeBlock s block)
      (executeBlock s (Statement.renamedBlock (replaceName x y) block)) m m' := by
  cases block with
  | nil =>
      rw [Statement.renamedBlock, executeBlock]
      exact renames_pure h ()
  | cons first rest =>
      rw [Statement.renamedBlock, executeBlock, executeBlock]
      refine (renames_execute s first rest h hread).bind fun _ n n' hfirst hn => ?_
      exact renames_executeBlock s rest hn (hread.later hfirst)

end

end Run

/-! ## Whole programs -/

namespace Program

/-- A program in which a variable has another name, which the program does not use, comes to the
same under every file system and all limits, if it reads the variable only where it is bound: the
same end, with the same fault, the same lines, the same requests, the same place, and the same
variables but for the one under its new name. -/
theorem renamed_runs_alike (system : FileSystem σ) (limits : Limits) (patience : Nat)
    (program : Program) (files : σ) (x y : String)
    (hlacks : Lacks program.body y)
    (hbound : ∀ pos there, program.Evaluates ⟨system.recorded, limits, patience⟩ (files, [])
      (.word x pos) there → there.environment.contains x = true) :
    let s : Setting (σ × List Request) := ⟨system.recorded, limits, patience⟩
    let ending := program.runWith s (files, [])
    let ending' := (program.renamed (replaceName x y)).runWith s (files, [])
    ending'.1 = ending.1 ∧
    ending'.2.terminal = ending.2.terminal ∧
    ending'.2.files = ending.2.files ∧
    ending'.2.pos = ending.2.pos ∧
    ∀ name, ending'.2.environment.get? name =
      if name = y then ending.2.environment.get? x
      else if name = x then none
      else ending.2.environment.get? name := by
  intro s ending ending'
  have hstart : (program.start (files, [])).Renames x y
      ((program.renamed (replaceName x y)).start ((files, []) : σ × List Request)) := by
    refine ⟨fun name => ?_, rfl, rfl, rfl⟩
    simp [start, Machine.fresh]
  have hends := renames_executeBlock s program.body hstart ⟨hlacks, hbound⟩
  have hending : ending = conclude _ := program.runWith_eq s (files, [])
  have hending' : ending' = conclude _ := (program.renamed _).runWith_eq s (files, [])
  obtain ⟨hresult, hrenames⟩ : ending'.1 = ending.1 ∧ ending.2.Renames x y ending'.2 := by
    have halike := conclude_alike hends (fun h => ⟨h.environment, h.terminal, h.pos, h.files⟩)
      fun h _ => ⟨h.environment, h.terminal, h.pos, h.files⟩
    rw [hending, hending']
    rwa [Outcome.moved_id] at halike
  exact ⟨hresult, hrenames.terminal.symm, hrenames.files.symm, hrenames.pos.symm,
    hrenames.environment⟩

/-- `d` becomes `dir` where it is declared, where the loop tests it and adds to it, and where it is
given to a command. -/
theorem renamed_runs_alike_loop :
    let program : Program := ⟨[.declare "d" (.text "docs" ⟨1, 11⟩) ⟨1, 3⟩,
      .loop ⟨.word "d" ⟨1, 22⟩, .equal, .text "docs" ⟨1, 27⟩, ⟨1, 22⟩⟩
        [.assign "d" (.binary .add (.word "d" ⟨1, 40⟩) (.text "!" ⟨1, 44⟩) ⟨1, 42⟩) ⟨1, 36⟩]
        ⟨1, 18⟩,
      .call .deleteFile [.word "d" ⟨1, 61⟩] ⟨1, 50⟩]⟩
    let s : Setting (Scripted × List Request) := ⟨Scripted.fileSystem.recorded, {}, 3⟩
    let ending := (program.renamed (replaceName "d" "dir")).runWith s (.ofResponses [], [])
    Program.ofSource
        "\x7b var d = \"docs\" for d == \"docs\" \x7b d = d + \"!\" \x7d DeleteFile(d) \x7d" =
      .ok program ∧
    Lacks program.body "dir" ∧ ending.1 = .finished ∧
      ending.2.environment.get? "dir" = some (.text "docs!") := by
  intro program s ending
  have hinside : ∀ inner : Statement, inner.Inside program.body →
      inner ∈ program.body ∨
        inner = .assign "d" (.binary .add (.word "d" ⟨1, 40⟩) (.text "!" ⟨1, 44⟩) ⟨1, 42⟩)
          ⟨1, 36⟩ := by
    rintro inner (hmem | ⟨hmem, -⟩ | ⟨hmem, -⟩ | ⟨hmem, hbody⟩)
    · exact .inl hmem
    · simp [program] at hmem
    · simp [program] at hmem
    · obtain ⟨-, rfl, -⟩ : _ ∧ _ ∧ _ := by simpa [program] using hmem
      rcases hbody with hmem | ⟨hmem, -⟩ | ⟨hmem, -⟩ | ⟨hmem, -⟩ <;>
        cases List.mem_singleton.1 hmem
      exact .inr rfl
  have hlacks : Lacks program.body "dir" := by
    refine .of_statements (fun inner hinner => ?_) fun inner hinner => ?_
    all_goals
      rcases hinside inner hinner with hmem | rfl
      · simp only [program, List.mem_cons, List.not_mem_nil, or_false] at hmem
        rcases hmem with rfl | rfl | rfl <;>
          simp [Statement.operands, Statement.target?, ← Expr.mem_postorder_iff, Expr.postorder]
      · simp [Statement.operands, Statement.target?, ← Expr.mem_postorder_iff, Expr.postorder]
  have hvalue : ∀ pos, ¬ (Expr.word "d" pos).Occurs (.text "docs" ⟨1, 11⟩) := by
    rintro pos (_ | ⟨hpart, -⟩)
    cases hpart
  obtain ⟨hresult, -, -, -, henvironment⟩ := renamed_runs_alike Scripted.fileSystem {} 3 program
    (.ofResponses []) "d" "dir" hlacks (readsBound_of_declare hvalue _)
  refine ⟨?_, hlacks, hresult.trans ?_, ?_⟩
  · refine ofSource_eq_ok_iff_ofLexemes.2 ⟨?lexemes, ?scanned, ?parsed⟩
    case scanned =>
      cbv
      rfl
    case parsed => cbv
  · cbv
  · rw [henvironment, if_pos rfl]
    cbv

end Program

end FileChores
