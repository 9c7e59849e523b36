import FileChores.Run.Machine

/-!
# Running one command

A command with the right number of arguments becomes a request to the file system or a wait. What it
prints when it succeeds, and the value it then has, depend on the request and the reply alone.
-/

namespace FileChores

inductive Action
  | ask (request : Request)
  | wait (duration : Value)

namespace Action

/-- There is no action for a wrong number of arguments. -/
def ofCall? : Command → List Value → Option Action
  | .moveFile, [source, target] => some (ask (.move source.toText target.toText))
  | .copyFile, [source, target] => some (ask (.copy source.toText target.toText))
  | .renameFile, [source, target] => some (ask (.rename source.toText target.toText))
  | .deleteFile, [path] => some (ask (.delete path.toText))
  | .listFiles, [path] => some (ask (.list path.toText))
  | .countFiles, [path] => some (ask (.count path.toText))
  | .checkSpace, [path] => some (ask (.space path.toText))
  | .wait, [duration] => some (wait duration)
  | _, _ => none

theorem ofCall?_eq_none_iff {command : Command} {args : List Value} :
    ofCall? command args = none ↔ args.length ≠ command.arity := by
  rcases args with _ | ⟨first, _ | ⟨second, _ | ⟨third, more⟩⟩⟩ <;> cases command <;>
    simp [ofCall?, Command.arity]

end Action

namespace Request

def confirmation : (request : Request) → request.Reply → List String
  | move source target, _ => [s!"Moved: {source} -> {target}"]
  | copy source target, _ => [s!"Copied: {source} -> {target}"]
  | rename source target, _ => [s!"Renamed: {source} -> {target}"]
  | delete path, _ => [s!"Deleted: {path}"]
  | list path, names => s!"Files in {path}:" :: names.map ("  " ++ ·)
  | count path, entries => [s!"Files in {path}: {entries}"]
  | space path, bytes => [s!"Space used by {path}: {bytes} bytes"]

/-- The value of a granted request: the answer to a query as a number. -/
def value : (request : Request) → request.Reply → Option Value
  | count _, n | space _, n => some (.number (Float.ofNat n))
  | _, _ => none

def notes : (request : Request) → request.Reply → List Event
  | copy _ _, bytes => [.copied bytes]
  | _, _ => []

/-- What the trace says of a rename that became a copy. -/
def detours : Request → Option Refusal → List Event
  | move source target, some cause | rename source target, some cause =>
      [.copiedInstead source target cause]
  | _, _ => []

end Request

namespace CommandError

/-- The whole milliseconds a duration asks for. A fraction is cut off, and no wait is longer than a
64-bit word can tell. -/
def milliseconds : Value → Except CommandError Nat
  | .number x =>
      if x.isFinite && 0 ≤ x then .ok x.toUInt64.toNat else .error (invalidDuration (.number x))
  | .text content => .error (invalidDuration (.text content))

end CommandError

namespace Run

variable {σ : Type}

/-- Notes a wait that is longer than the limits allow. -/
def noteWait (limits : Limits) (requested : Nat) (pos : Position) : Run σ Unit :=
  match limits.maxWait with
  | some cap => if cap < requested then record (.waitCapped requested cap pos) else return
  | none => return

/-- A command that succeeds has printed its confirmation. One that fails has printed nothing. -/
def perform (setting : Setting σ) (pos : Position) :
    Action → Run σ (Except CommandError (Option Value))
  | .ask request => do
      let answer ← ask setting.files request
      (request.detours answer.detour).forM record
      match answer.result with
      | .error e => return .error (.file e)
      | .ok reply =>
          (request.notes reply).forM record
          (request.confirmation reply).forM (print · pos)
          return .ok (request.value reply)
  | .wait duration =>
      match CommandError.milliseconds duration with
      | .error e => return .error e
      | .ok requested => do
          print s!"Waiting {requested} ms..." pos
          noteWait setting.limits requested pos
          return .ok none

/-- Runs a command on values. A wrong number of arguments is a fault; any other failure is left to
the caller. -/
def dispatch (setting : Setting σ) (command : Command) (args : List Value) (pos : Position) :
    Run σ (Except CommandError (Option Value)) :=
  match Action.ofCall? command args with
  | none => fault (.argumentCount command args.length pos)
  | some action => do
      record (.dispatched command args pos)
      perform setting pos action

def failedQuery : Value := .number 0

def call (setting : Setting σ) (command : Command) (args : List Value) (pos : Position) :
    Run σ (Option Value) := do
  match ← dispatch setting command args pos with
  | .ok value => return value
  | .error e =>
      record (.commandFailed command e pos)
      printError (e.report command) pos
      return if command.isQuery then some failedQuery else none

end Run

end FileChores
