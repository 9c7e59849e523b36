import FileChores.Program.Source
import FileChores.Run.Statement

/-!
# Sessions

A session keeps one program and one machine. It runs the program, runs single commands, and may be
given another file system; the program stays what it is. Every run starts afresh, and the trace is
that of the latest step. A session records what it prints and shows nothing of it.
-/

namespace FileChores

inductive Outcome
  | finished
  | aborted (fault : Fault)
  /-- A loop was given up. -/
  | unfinished
  deriving BEq, Repr

inductive ScriptError
  | source (e : SourceError)
  | fault (e : Fault)
  deriving BEq, Repr

namespace ScriptError

def message : ScriptError → String
  | source e => e.message
  | fault e => s!"Runtime error: {e.message}"

end ScriptError

namespace Limits

/-- A loop with a limit is told to stop before it is given up. One without a limit is given up when
a 64-bit word cannot count its iterations any more. -/
def patience (limits : Limits) : Nat :=
  match limits.maxIterations with
  | some limit => limit + 1
  | none => UInt64.size

def setting {σ : Type} (limits : Limits) (files : FileSystem σ) : Setting σ :=
  ⟨files, limits, limits.patience⟩

end Limits

/-- The same files, with nothing known and nothing printed. -/
def Machine.restart {σ : Type} (m : Machine σ) : Machine σ :=
  { m with environment := .empty, terminal := .empty, pos := .start, trace := #[] }

namespace Program

variable {σ : Type}

/-- Runs a program on a machine. The machine that is given back is the one in which the run ended or
was stopped. -/
def runFrom (setting : Setting σ) (program : Program) (m : Machine σ) : Outcome × Machine σ :=
  let start := { m with trace := m.trace.push (.running program.body.length) }
  let (result, m) := (Run.executeBlock setting program.body).run.run start
  match result with
  | .ok () => (.finished, { m with trace := m.trace.push (.finished m.environment.size) })
  | .error (.fault fault) => (.aborted fault, { m with trace := m.trace.push (.aborted fault) })
  | .error .unfinished => (.unfinished, m)

def runWith (setting : Setting σ) (program : Program) (files : σ) : Outcome × Machine σ :=
  program.runFrom setting (.fresh files)

def run (system : FileSystem σ) (limits : Limits) (program : Program) (files : σ) :
    Outcome × Machine σ :=
  program.runWith (limits.setting system) files

/-- Reads a program and runs it, printing on the given terminal. The trace begins with the
reading. -/
def executeOn (terminal : Terminal) (system : FileSystem σ) (limits : Limits) (source : String)
    (files : σ) : Except SourceError (Outcome × Machine σ) := do
  let program ← ofSource source
  let (outcome, m) :=
    program.runFrom (limits.setting system) { Machine.fresh files with terminal := terminal }
  return (outcome, { m with trace := #[.parsed program.body.length] ++ m.trace })

def execute (system : FileSystem σ) (limits : Limits) (source : String) (files : σ) :
    Except SourceError (Outcome × Machine σ) :=
  executeOn .empty system limits source files

end Program

structure Session (σ : Type) where
  program : Program
  limits : Limits
  machine : Machine σ

namespace Session

variable {σ : Type}

def start (program : Program) (limits : Limits) (files : σ) : Session σ :=
  ⟨program, limits, .fresh files⟩

/-- The session without its program, and the program. -/
def takeProgram (session : Session σ) : Program × Session σ :=
  (session.program, { session with program := ⟨[]⟩ })

def run (system : FileSystem σ) (session : Session σ) : Outcome × Session σ :=
  let (program, session) := { session with machine := session.machine.restart }.takeProgram
  let (outcome, m) := program.runFrom (session.limits.setting system) session.machine
  (outcome, { session with program := program, machine := m })

/-- Runs one command on values. A failure is given back and not reported. -/
def dispatch (system : FileSystem σ) (command : Command) (args : List Value) (pos : Position)
    (session : Session σ) : Except Halt (Except CommandError (Option Value)) × Session σ :=
  let setting := session.limits.setting system
  let (result, m) :=
    (Run.dispatch setting command args pos).run.run { session.machine with trace := #[] }
  (result, { session with machine := m })

/-- The session with other files, which may be those of another file system. -/
def withFiles {τ : Type} (files : τ) (session : Session σ) : Session τ :=
  { session with machine := { session.machine with files := files, trace := #[] } }

end Session

end FileChores
