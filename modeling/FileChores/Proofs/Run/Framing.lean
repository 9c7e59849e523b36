import FileChores.Proofs.Grammar.Names
import FileChores.Proofs.Program.Assigned
import FileChores.Proofs.Run.History
import FileChores.Proofs.Run.Turns

/-!
# What a block leaves alone

A block binds the names that its statements assign to and no others, unbinds nothing and takes back
no line, whether it is executed to its end or not.
-/

namespace FileChores

open Run

variable {σ α β : Type} {allowed : String → Prop}

/-- At most the allowed names are bound differently, no name is unbound, and the lines that were
printed stay in front of the new ones. -/
structure Machine.Frames (allowed : String → Prop) (m m' : Machine σ) : Prop where
  others : ∀ name, ¬ allowed name → m'.environment.get? name = m.environment.get? name
  bound : ∀ name, m.environment.contains name = true → m'.environment.contains name = true
  printed : m.terminal.lines.toList <+: m'.terminal.lines.toList

namespace Machine.Frames

variable {m m' m'' : Machine σ}

theorem refl (m : Machine σ) : Frames allowed m m where
  others _ _ := rfl
  bound _ h := h
  printed := List.prefix_refl _

theorem trans (h : Frames allowed m m') (h' : Frames allowed m' m'') : Frames allowed m m'' where
  others name hname := (h'.others name hname).trans (h.others name hname)
  bound name hname := h'.bound name (h.bound name hname)
  printed := h.printed.trans h'.printed

theorem of_unchanged (henvironment : m'.environment = m.environment)
    (hterminal : m'.terminal = m.terminal) : Frames allowed m m' where
  others _ _ := by rw [henvironment]
  bound _ h := by rwa [henvironment]
  printed := by rw [hterminal]

theorem of_push (line : Line) (henvironment : m'.environment = m.environment)
    (hterminal : m'.terminal = m.terminal.push line) : Frames allowed m m' where
  others _ _ := by rw [henvironment]
  bound _ h := by rwa [henvironment]
  printed := by
    rw [hterminal, Terminal.push, Array.toList_push]
    exact List.prefix_append _ _

theorem of_insert {name : String} {value : Value} (hname : allowed name)
    (henvironment : m'.environment = m.environment.insert name value)
    (hterminal : m'.terminal = m.terminal) : Frames allowed m m' where
  others other hother := by
    rw [henvironment, Environment.get?_insert, if_neg]
    rintro rfl
    exact hother hname
  bound other hother := by
    rw [Environment.contains_iff] at *
    rw [henvironment, Environment.get?_insert]
    split
    · exact Option.some_ne_none _
    · exact hother
  printed := by rw [hterminal]

theorem assigned (h : Frames allowed m m') {name : String}
    (hname : m'.environment.contains name = true) :
    m.environment.contains name = true ∨ allowed name := by
  by_cases hallowed : allowed name
  · exact .inr hallowed
  · rw [Environment.contains_iff, h.others name hallowed, ← Environment.contains_iff] at hname
    exact .inl hname

end Machine.Frames

namespace Run

def Framed (allowed : String → Prop) (x : Run σ α) : Prop :=
  ∀ m : Machine σ, m.Frames allowed (result x m).2

theorem Framed.bind {x : Run σ α} {f : α → Run σ β} (hx : Framed allowed x)
    (hf : ∀ a, Framed allowed (f a)) : Framed allowed (x >>= f) := by
  intro m
  have hm := hx m
  rcases h : result x m with ⟨halt | a, m'⟩ <;> rw [h] at hm
  · rw [result_bind_error h]
    exact hm
  · rw [result_bind_ok h]
    exact hm.trans (hf a m')

theorem Framed.of_unchanged {x : Run σ α}
    (henvironment : ∀ m, (result x m).2.environment = m.environment)
    (hterminal : ∀ m, (result x m).2.terminal = m.terminal) : Framed allowed x :=
  fun m => .of_unchanged (henvironment m) (hterminal m)

theorem framed_enter (pos : Position) : Framed allowed (enter pos : Run σ Unit) :=
  .of_unchanged (fun _ => rfl) fun _ => rfl

theorem framed_assign {name : String} (hname : allowed name) (value : Value) :
    Framed allowed (assign name value : Run σ Unit) :=
  fun _ => .of_insert hname rfl rfl

theorem framed_congruence (allowed : String → Prop) (s : Setting σ) :
    EvaluationCongruence id (fun x _ => Framed allowed x) s s where
  maxWait := rfl
  pure _ := .of_unchanged (fun _ => rfl) fun _ => rfl
  bind := Framed.bind
  fault _ := .of_unchanged (fun _ => rfl) fun _ => rfl
  record _ _ := .of_unchanged (fun _ => rfl) fun _ => rfl
  print _ _ _ := .of_push _ rfl rfl
  printError _ _ _ := .of_push _ rfl rfl
  lookup _ := .of_unchanged (fun _ => rfl) fun _ => rfl
  ask _ := .of_unchanged (fun _ => rfl) fun _ => rfl

theorem framed_checkLimit (limit : Option Nat) (pos : Position) (done : Nat) :
    Framed allowed (checkLimit limit pos done : Run σ Unit) := by
  rcases limit_le_or_lt limit done with ⟨n, rfl, hle⟩ | hlt
  · intro m
    rw [checkLimit_of_le pos hle]
    exact .of_unchanged rfl rfl
  · rw [checkLimit_of_lt pos hlt]
    exact .of_unchanged (fun _ => rfl) fun _ => rfl

theorem framed_iterate (limit : Option Nat) (pos : Position) {condition : Run σ Bool}
    {body : Run σ Unit} (hcondition : Framed allowed condition) (hbody : Framed allowed body)
    (patience done : Nat) :
    Framed allowed (iterate limit pos condition body patience done) := by
  induction patience generalizing done with
  | zero => exact fun m => .refl m
  | succ patience ih =>
      rw [iterate]
      refine hcondition.bind fun holds => ?_
      cases holds with
      | false => exact .of_unchanged (fun _ => rfl) fun _ => rfl
      | true =>
          rw [if_pos rfl]
          exact (framed_checkLimit limit pos done).bind fun _ => hbody.bind fun _ => ih (done + 1)

mutual

theorem framed_execute (s : Setting σ) (statement : Statement)
    (h : AssignsOnly allowed [statement]) : Framed allowed (execute s statement) := by
  have c := framed_congruence allowed s
  cases statement with
  | declare name value pos =>
      rw [execute]
      have hname : allowed name := h.target (.head _) rfl
      exact (framed_enter pos).bind fun _ => (c.evaluate value).bind fun a => framed_assign hname a
  | assign name value pos =>
      rw [execute]
      have hname : allowed name := h.target (.head _) rfl
      exact (framed_enter pos).bind fun _ => (c.evaluate value).bind fun a => framed_assign hname a
  | branch condition thenBlock elseBlock pos =>
      rw [execute]
      refine (framed_enter pos).bind fun _ => (c.test condition).bind fun holds => ?_
      cases holds with
      | true =>
          exact framed_executeBlock s thenBlock (h.of_inside fun _ => .thenBlock (.head _))
      | false =>
          apply framed_executeElse s elseBlock
          rintro block rfl
          exact h.of_inside fun _ => .elseBlock (.head _)
  | loop condition body pos =>
      rw [execute]
      have hbody := framed_executeBlock s body (h.of_inside fun _ => .body (.head _))
      exact (framed_enter pos).bind fun _ => framed_iterate _ pos (c.test condition) hbody _ 0
  | call command args pos =>
      rw [execute]
      refine (framed_enter pos).bind fun _ => (c.evaluateAll args).bind fun values => ?_
      exact (c.call command values pos).bind fun _ => c.pure ()

theorem framed_executeBlock (s : Setting σ) (block : List Statement)
    (h : AssignsOnly allowed block) : Framed allowed (executeBlock s block) := by
  cases block with
  | nil => exact fun m => .refl m
  | cons first rest =>
      rw [executeBlock]
      refine (framed_execute s first (h.mono ?_)).bind fun _ =>
        framed_executeBlock s rest (h.mono (List.subset_cons_self _ _))
      simp

theorem framed_executeElse (s : Setting σ) (elseBlock : Option (List Statement))
    (h : ∀ block ∈ elseBlock, AssignsOnly allowed block) :
    Framed allowed (executeElse s elseBlock) := by
  cases elseBlock with
  | none => exact fun m => .refl m
  | some block =>
      rw [executeElse]
      exact framed_executeBlock s block (h block rfl)

end

end Run

/-- However the execution of a block ends, only names that the block assigns to are bound
differently, no name is unbound, and the lines that were printed stay in front of the new ones. A
script assigns only to words that are no keywords, and after every run of it only names that it
assigns to are bound. -/
theorem executeBlock_frames :
    (∀ {σ : Type} (s : Setting σ) (block : Block) (m : Machine σ),
      let m' := (result (executeBlock s block) m).2
      (∀ name, ¬ Assigns block name → m'.environment.get? name = m.environment.get? name) ∧
      (∀ name, m.environment.contains name = true → m'.environment.contains name = true) ∧
      (∀ name, m'.environment.contains name = true →
        m.environment.contains name = true ∨ Assigns block name) ∧
      m.terminal.lines.toList <+: m'.terminal.lines.toList) ∧
    ∀ {σ : Type} (system : FileSystem σ) (session : Session σ) (source : String),
      Program.ofSource source = .ok session.program →
      (∀ name value, (name, value) ∈ (session.run system).2.machine.environment.toList →
        Assigns session.program.body name) ∧
      ∀ name, Assigns session.program.body name → Token.IsName name := by
  have hframes {σ : Type} (s : Setting σ) (block : Block) (m : Machine σ) :
      m.Frames (Assigns block) (result (executeBlock s block) m).2 :=
    framed_executeBlock s block (fun _ h => h) m
  refine ⟨fun s block m => ?_, fun system session source hsource =>
    ⟨fun name value hmem => ?_, fun name => Program.isName_of_assigns hsource⟩⟩
  · have h := hframes s block m
    exact ⟨h.others, h.bound, fun name => h.assigned, h.printed⟩
  · have hbound : (session.run system).2.machine.environment.contains name = true := by
      rw [Environment.contains_iff, Environment.mem_toList_iff.1 hmem]
      exact Option.some_ne_none value
    rw [Session.run_eq, Program.run, Program.runWith_eq, Program.conclude_environment] at hbound
    -- A run starts with nothing bound.
    exact ((hframes _ _ _).assigned hbound).resolve_left fun hstart =>
      Environment.contains_iff.1 hstart (Environment.get?_empty name)

/-- `y = x - "b"` is aborted, and `y` is not bound. -/
theorem executeBlock_frames_aborted :
    let session := Session.start ⟨[.assign "x" (.text "a" ⟨1, 7⟩) ⟨1, 3⟩,
      .assign "y" (.binary .sub (.word "x" ⟨1, 15⟩) (.text "b" ⟨1, 19⟩) ⟨1, 17⟩) ⟨1, 11⟩]⟩ {}
      (Scripted.ofResponses [])
    Program.ofSource "\x7b x = \"a\" y = x - \"b\" \x7d" = .ok session.program ∧
    (session.run Scripted.fileSystem).1 =
      .aborted (.textSubtraction "Text \"a\"" "Text \"b\"" ⟨1, 17⟩) ∧
    ("x", .text "a") ∈ (session.run Scripted.fileSystem).2.machine.environment.toList ∧
    Assigns session.program.body "x" ∧ Token.IsName "x" := by
  intro session
  have hsource : Program.ofSource "\x7b x = \"a\" y = x - \"b\" \x7d" = .ok session.program := by
    cbv
  have hmem : ("x", .text "a") ∈
      (session.run Scripted.fileSystem).2.machine.environment.toList := by
    rw [Environment.mem_toList_iff]
    rfl
  obtain ⟨hbound, hnames⟩ := executeBlock_frames.2 Scripted.fileSystem session _ hsource
  have hassigned := hbound "x" _ hmem
  exact ⟨hsource, rfl, hmem, hassigned, hnames "x" hassigned⟩

end FileChores
