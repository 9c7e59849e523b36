import FileChores.Run.Error

/-!
# The trace of a run

A run tells what it does, event by event. Each event has a level, a message and named fields.
-/

namespace FileChores

inductive Event
  | parsed (statements : Nat)
  | running (statements : Nat)
  | finished (bindings : Nat)
  | aborted (fault : Fault)
  | statement (pos : Position)
  | assigned (name : String) (value : Value)
  | compared (left : Value) (op : Comparison) (right : Value) (result : Bool)
  | dispatched (command : Command) (args : List Value) (pos : Position)
  | copied (bytes : Nat)
  | copiedInstead (source target : String) (cause : Refusal)
  | waitCapped (requested cap : Nat) (pos : Position)
  | commandFailed (command : Command) (e : CommandError) (pos : Position)
  | loopLimitReached (limit : Nat) (pos : Position)
  | loopFinished (iterations : Nat) (pos : Position)
  deriving BEq, Repr

inductive Level
  | trace
  | debug
  | info
  | warn
  deriving DecidableEq, Repr

namespace Level

def name : Level → String
  | trace => "TRACE"
  | debug => "DEBUG"
  | info => "INFO"
  | warn => "WARN"

end Level

namespace Event

def level : Event → Level
  | assigned .. | compared .. | copied .. => .trace
  | parsed .. | statement .. | dispatched .. | copiedInstead .. | loopFinished .. => .debug
  | running .. | finished .. | aborted .. => .info
  | waitCapped .. | commandFailed .. | loopLimitReached .. => .warn

def message : Event → String
  | parsed .. => "parsed script"
  | running .. => "running script"
  | finished .. => "script finished"
  | aborted .. => "script aborted"
  | statement .. => "statement"
  | assigned .. => "assign"
  | compared .. => "condition"
  | dispatched .. => "dispatch"
  | copied .. => "copied"
  | copiedInstead .. => "rename failed, copying instead"
  | waitCapped .. => "wait capped"
  | commandFailed .. => "command failed"
  | loopLimitReached .. => "loop limit reached"
  | loopFinished .. => "loop finished"

def fields : Event → List (String × String)
  | parsed statements | running statements => [("statements", toString statements)]
  | finished bindings => [("variables", toString bindings)]
  | aborted fault => [("error", fault.message)]
  | statement pos => [("line", toString pos.line), ("column", toString pos.column)]
  | assigned name value => [("name", name), ("value", value.toText)]
  | compared left op right result =>
      [("left", left.toText), ("op", op.symbol), ("right", right.toText),
        ("result", if result then "true" else "false")]
  | dispatched command args pos =>
      [("command", command.name), ("args", toString args.length), ("line", toString pos.line)]
  | copied bytes => [("bytes", toString bytes)]
  | copiedInstead source target cause =>
      [("src", source), ("dst", target), ("error", cause.message)]
  | waitCapped requested cap pos =>
      [("requested_ms", toString requested), ("cap_ms", toString cap), ("line", toString pos.line)]
  | commandFailed command e pos =>
      [("command", command.name), ("error", e.message), ("line", toString pos.line)]
  | loopLimitReached limit pos => [("limit", toString limit), ("line", toString pos.line)]
  | loopFinished iterations pos =>
      [("iterations", toString iterations), ("line", toString pos.line)]

end Event

end FileChores
