import FileChores.FileSystem
import FileChores.Value

/-!
# What goes wrong in a run

A fault stops the script. A command that fails is only reported, and the script goes on.
-/

namespace FileChores

inductive Fault
  /-- Holds the operands as messages name them. -/
  | textSubtraction (left right : String) (pos : Position)
  | argumentCount (command : Command) (given : Nat) (pos : Position)
  | loopLimit (limit : Nat) (pos : Position)
  deriving BEq, Repr

namespace Fault

def pos : Fault → Position
  | textSubtraction _ _ pos | argumentCount _ _ pos | loopLimit _ pos => pos

def message : Fault → String
  | textSubtraction left right pos =>
      s!"Invalid subtraction at line {pos.line}: " ++
        s!"cannot subtract {right} from {left}"
  | argumentCount command given pos =>
      let plural := if command.arity = 1 then "" else "s"
      s!"{command.name} expects {command.arity} argument{plural}, got {given} at line {pos.line}"
  | loopLimit limit pos => s!"Loop exceeded {limit} iterations at line {pos.line}"

end Fault

inductive CommandError
  | file (e : FileError)
  | invalidDuration (value : Value)
  deriving BEq, Repr

namespace CommandError

/-- The value as a script could have written it: a text between quotes. -/
private def written : Value → String
  | .number x => Number.text x
  | .text content => s!"\"{content}\""

def message : CommandError → String
  | file e => e.message
  | invalidDuration value =>
      s!"invalid duration {written value}: expected a non-negative number of milliseconds"

/-- The line that reports the failure. A missing file speaks for itself. -/
def report (command : Command) (e : CommandError) : String :=
  match e with
  | file (.notFound _) | file (.directoryNotFound _) => e.message
  | _ => s!"Error running {command.name}: {e.message}"

end CommandError

end FileChores
