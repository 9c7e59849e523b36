import FileChores.Environment
import FileChores.Run.Event
import FileChores.Terminal

/-!
# The state of a run

A machine holds what a script can change: its variables, the lines printed so far, where it stands,
the trace, and the files. A step of a run changes the machine and may halt it; a halted machine
keeps everything up to there.
-/

namespace FileChores

structure Limits where
  /-- The most iterations one execution of a loop may make. -/
  maxIterations : Option Nat := none
  /-- The longest time one `Wait` may take, in milliseconds. -/
  maxWait : Option Nat := none
  deriving DecidableEq, Repr

structure Machine (σ : Type) where
  environment : Environment
  terminal : Terminal
  /-- The statement that was started last. -/
  pos : Position
  trace : Array Event
  files : σ

namespace Machine

variable {σ : Type}

def fresh (files : σ) : Machine σ := ⟨.empty, .empty, .start, #[], files⟩

end Machine

inductive Halt
  | fault (fault : Fault)
  /-- A loop was given up before it ended. -/
  | unfinished
  deriving BEq, Repr

abbrev Run (σ : Type) := ExceptT Halt (StateM (Machine σ))

/-- What a run works with: the file system, the limits, and how many iterations it waits for one
execution of a loop to end. -/
structure Setting (σ : Type) where
  files : FileSystem σ
  limits : Limits
  patience : Nat

namespace Run

variable {σ : Type}

def fault {α : Type} (fault : Fault) : Run σ α := throw (.fault fault)

def record (event : Event) : Run σ Unit :=
  modify fun m => { m with trace := m.trace.push event }

def print (text : String) (pos : Position) : Run σ Unit :=
  modify fun m => { m with terminal := m.terminal.print text pos }

def printError (text : String) (pos : Position) : Run σ Unit :=
  modify fun m => { m with terminal := m.terminal.error text pos }

def lookup (name : String) : Run σ Value := do
  return ((← get).environment.get? name).getD (.text name)

def assign (name : String) (value : Value) : Run σ Unit := do
  record (.assigned name value)
  modify fun m => { m with environment := m.environment.insert name value }

def enter (pos : Position) : Run σ Unit := do
  modify fun m => { m with pos := pos }
  record (.statement pos)

def ask (system : FileSystem σ) (request : Request) : Run σ (Answer request) := do
  let m ← get
  let (answer, files) := system.answer request m.files
  set { m with files := files }
  return answer

end Run

end FileChores
