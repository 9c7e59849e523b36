import FileChores.FileSystem.Scripted
import FileChores.Proofs.Grammar.Erasing
import FileChores.Proofs.Run.Recorded

/-!
# What a declaration does

A declaration does what an assignment does. So a script in which spaces stand for the keyword of
declarations runs as before, unless it is no script any more because the name of a command was
declared.
-/

namespace FileChores

variable {σ α β : Type}

/-- The same machine but for its place and its trace. -/
structure Machine.Like (m m' : Machine σ) : Prop where
  environment : m.environment = m'.environment
  terminal : m.terminal = m'.terminal
  files : m.files = m'.files

namespace Machine.Like

variable {m m' m'' : Machine σ}

theorem refl (m : Machine σ) : m.Like m := ⟨rfl, rfl, rfl⟩

theorem symm (h : m.Like m') : m'.Like m :=
  ⟨h.environment.symm, h.terminal.symm, h.files.symm⟩

theorem trans (h : m.Like m') (h' : m'.Like m'') : m.Like m'' :=
  ⟨h.environment.trans h'.environment, h.terminal.trans h'.terminal, h.files.trans h'.files⟩

end Machine.Like

namespace Run

abbrev Alike (x y : Run σ α) : Prop :=
  Related id Machine.Like x y

theorem alike_record (event event' : Event) :
    Alike (record event : Run σ Unit) (record event') :=
  fun _ _ h => ⟨rfl, h.environment, h.terminal, h.files⟩

theorem alike_enter (pos pos' : Position) : Alike (enter pos : Run σ Unit) (enter pos') :=
  fun _ _ h => ⟨rfl, h.environment, h.terminal, h.files⟩

theorem like_acts (system : FileSystem σ) :
    Machine.ActsAlike id Machine.Like system system where
  environment h := h.environment.symm
  insert h name value := ⟨congrArg (·.insert name value) h.environment, h.terminal, h.files⟩
  stand h _ := ⟨h.environment, h.terminal, h.files⟩
  tell h _ := ⟨h.environment, h.terminal, h.files⟩
  push h line := ⟨h.environment, congrArg (·.push line) h.terminal, h.files⟩
  answer h request := by rw [h.files]
  ask h request := ⟨h.environment, h.terminal, by rw [h.files]⟩

theorem alike_congruence (s : Setting σ) : Congruence id Alike s s :=
  (like_acts s.files).congruence rfl

theorem alike_lockstep (s : Setting σ) : Lockstep id Alike s s fun _ _ => True :=
  (like_acts s.files).lockstep s.limits s.patience

-- The places of declarations move and those of calls do not, so the trees are gone through once
-- more: no map of places takes one program to the other.
mutual

theorem alike_execute (s : Setting σ) (statement : Statement) :
    Alike (execute s statement) (execute s statement.undeclared) := by
  have c := alike_congruence s
  cases statement with
  | declare name value pos | assign name value pos =>
      rw [Statement.undeclared, execute, execute]
      refine (alike_enter pos .start).bind fun _ => ?_
      exact (c.evaluate value).bind fun a => c.assign name a
  | branch condition thenBlock elseBlock pos =>
      rw [Statement.undeclared, execute, execute]
      refine (c.enter pos).bind fun _ => (c.test condition).bind fun holds => ?_
      cases holds with
      | true => exact alike_executeBlock s thenBlock
      | false => exact alike_executeElse s elseBlock
  | loop condition body pos =>
      rw [Statement.undeclared, execute, execute]
      refine (c.enter pos).bind fun _ => ?_
      have hbody := alike_executeBlock s body
      exact (alike_lockstep s).iterate_moved _ pos (c.test condition) hbody _ 0
  | call command args pos =>
      rw [Statement.undeclared]
      exact c.execute_simple rfl

theorem alike_executeBlock (s : Setting σ) (block : List Statement) :
    Alike (executeBlock s block) (executeBlock s (Statement.undeclaredBlock block)) := by
  cases block with
  | nil =>
      rw [Statement.undeclaredBlock]
      exact Related.pure ()
  | cons first rest =>
      rw [Statement.undeclaredBlock, executeBlock, executeBlock]
      exact (alike_execute s first).bind fun _ => alike_executeBlock s rest

theorem alike_executeElse (s : Setting σ) (block : Option (List Statement)) :
    Alike (executeElse s block) (executeElse s (Statement.undeclaredElse block)) := by
  cases block with
  | none =>
      rw [Statement.undeclaredElse]
      exact Related.pure ()
  | some block =>
      rw [Statement.undeclaredElse, executeElse, executeElse]
      exact alike_executeBlock s block

end

end Run

open Run

namespace Program

theorem runWith_like {program program' : Program}
    (h : Statement.undeclaredBlock program.body = Statement.undeclaredBlock program'.body)
    (s : Setting σ) (files : σ) :
    (program.runWith s files).1 = (program'.runWith s files).1 ∧
      (program.runWith s files).2.Like (program'.runWith s files).2 := by
  have hstart : (program.start files).Like (program'.start files) := ⟨rfl, rfl, rfl⟩
  have hends := alike_executeBlock s program.body _ _ hstart
  have hends' := alike_executeBlock s program'.body _ _ (.refl (program'.start files))
  rw [h] at hends
  have hblocks : EndsAlike id Machine.Like
      (result (executeBlock s program.body) (program.start files))
      (result (executeBlock s program'.body) (program'.start files)) :=
    .of_eq (hends'.result_eq.symm.trans hends.result_eq)
      (hends.machines.trans hends'.machines.symm)
  have halike := conclude_alike hblocks (fun hm => ⟨hm.environment, hm.terminal, hm.files⟩)
    fun hm _ => ⟨hm.environment, hm.terminal, hm.files⟩
  rw [Outcome.moved_id] at halike
  rw [runWith_eq, runWith_eq]
  exact ⟨halike.1.symm, halike.2⟩

/-- A script with spaces for every keyword of a declaration is still a script just when no name of
a command is declared in it, and then it comes to the same under every file system and all limits:
the same end, the same variables, the same lines and the same requests. -/
theorem blanked_runs_alike {source : String} {program : Program}
    (h : ofSource source = .ok program) :
    ((∃ program', ofSource (Lexemes.blanked source) = .ok program') ↔ DeclaresFree program.body) ∧
    ∀ program', ofSource (Lexemes.blanked source) = .ok program' →
      ∀ {σ : Type} (system : FileSystem σ) (limits : Limits) (patience : Nat) (files : σ),
        let ending := program.runWith ⟨system.recorded, limits, patience⟩ (files, [])
        let ending' := program'.runWith ⟨system.recorded, limits, patience⟩ (files, [])
        ending.1 = ending'.1 ∧ ending.2.environment = ending'.2.environment ∧
          ending.2.terminal = ending'.2.terminal ∧ ending.2.files = ending'.2.files := by
  obtain ⟨lexemes, hlexemes, d, hyield, rfl⟩ := ofSource_eq_ok_iff.1 h
  have hblanked : ∀ program', ofSource (Lexemes.blanked source) = .ok program' ↔
      ∃ d' : Grammar.Block, d'.yield = Lexeme.unkeyed d.yield ∧ d'.program = program' := by
    intro program'
    rw [ofSource_eq_ok_iff, Lexemes.ofSource_blanked hlexemes, hyield]
    simp
  constructor
  · change _ ↔ DeclaresFree d.trees
    rw [← d.exists_unkeyed_iff]
    simp only [hblanked]
    constructor
    · rintro ⟨program', d', hd', -⟩
      exact ⟨d', hd'⟩
    · rintro ⟨d', hd'⟩
      exact ⟨d'.program, d', hd', rfl⟩
  · intro program' h' σ system limits patience files
    obtain ⟨d', hd', rfl⟩ := (hblanked program').1 h'
    obtain ⟨hresult, hlike⟩ := runWith_like (Grammar.Block.undeclared_eq hd').symm
      ⟨system.recorded, limits, patience⟩ (files, [])
    exact ⟨hresult, hlike.environment, hlike.terminal, hlike.files⟩

theorem blanked_runs_alike_listing :
    ofSource "\x7bvar d=\"a\" ListFiles(d)\x7d" = .ok ⟨[.declare "d" (.text "a" ⟨1, 8⟩) ⟨1, 2⟩,
      .call .listFiles [.word "d" ⟨1, 22⟩] ⟨1, 12⟩]⟩ ∧
    ∃ program', ofSource (Lexemes.blanked "\x7bvar d=\"a\" ListFiles(d)\x7d") = .ok program' ∧
      (program'.runWith (({} : Limits).setting Scripted.fileSystem.recorded)
        (.ofResponses [], [])).1 = .finished := by
  have hsource : ofSource "\x7bvar d=\"a\" ListFiles(d)\x7d" =
      .ok ⟨[.declare "d" (.text "a" ⟨1, 8⟩) ⟨1, 2⟩,
        .call .listFiles [.word "d" ⟨1, 22⟩] ⟨1, 12⟩]⟩ := by
    refine ofSource_eq_ok_iff_ofLexemes.2 ⟨?lexemes, ?scanned, ?parsed⟩
    case scanned =>
      cbv
      rfl
    case parsed => cbv
  have hfree : DeclaresFree [.declare "d" (.text "a" ⟨1, 8⟩) ⟨1, 2⟩,
      .call .listFiles [.word "d" ⟨1, 22⟩] ⟨1, 12⟩] :=
    DeclaresFree.cons_iff.2 ⟨DeclaresFree.declare_iff.2 fun command => by
      cases command <;> decide, .call⟩
  obtain ⟨program', h'⟩ := (blanked_runs_alike hsource).1.2 hfree
  refine ⟨hsource, program', h', ?_⟩
  have halike := (blanked_runs_alike hsource).2 program' h' Scripted.fileSystem {}
    (Limits.patience {}) (.ofResponses [])
  exact halike.1.symm.trans rfl

end Program

end FileChores
