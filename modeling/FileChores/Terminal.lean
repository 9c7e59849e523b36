import FileChores.Text.Position

/-!
# Terminals

The lines a run prints, in order, each with its stream and the position of the command that
printed it. A terminal that echoes writes each line through to the console of the process as the
line is printed, so what is on the console stays there when the terminal is dropped. How a text
looks in the colour of its stream is up to the console: any function of texts may stand for it.
-/

namespace FileChores

inductive Stream
  /-- Confirmations and answers. -/
  | output
  /-- Reports of failed commands. -/
  | errors
  deriving DecidableEq, Repr

structure Line where
  text : String
  stream : Stream
  pos : Position
  deriving DecidableEq, Repr

/-- How a text is styled for a stream. -/
abbrev Styling := Stream → String → String

namespace Styling

/-- Green for output and yellow for errors, in escape sequences. -/
def escapes : Styling
  | .output, text => s!"\x1b[38;5;10m{text}\x1b[39m"
  | .errors, text => s!"\x1b[38;5;11m{text}\x1b[39m"

/-- Texts stay as they are without colour. -/
def when (styling : Styling) (color : Bool) : Styling :=
  fun stream text => if color then styling stream text else text

end Styling

namespace Line

def written (styling : Styling) (line : Line) : String :=
  styling line.stream line.text ++ "\n"

end Line

/-- The two streams of a process, with what has been written to each. -/
structure Console where
  styling : Styling
  output : String := ""
  errors : String := ""

namespace Console

def on (console : Console) : Stream → String
  | .output => console.output
  | .errors => console.errors

def write (console : Console) (line : Line) : Console :=
  match line.stream with
  | .output => { console with output := console.output ++ line.written console.styling }
  | .errors => { console with errors := console.errors ++ line.written console.styling }

end Console

structure Terminal where
  lines : Array Line
  /-- Where each line is written as it is printed, if anywhere. -/
  console : Option Console

namespace Terminal

def empty : Terminal := ⟨#[], none⟩

def echoing (styling : Styling) : Terminal := ⟨#[], some { styling }⟩

def push (terminal : Terminal) (line : Line) : Terminal :=
  ⟨terminal.lines.push line, terminal.console.map (·.write line)⟩

def print (terminal : Terminal) (text : String) (pos : Position) : Terminal :=
  terminal.push ⟨text, .output, pos⟩

def error (terminal : Terminal) (text : String) (pos : Position) : Terminal :=
  terminal.push ⟨text, .errors, pos⟩

def textsOn (terminal : Terminal) (stream : Stream) : List String :=
  (terminal.lines.toList.filter (·.stream = stream)).map (·.text)

def echoed (terminal : Terminal) (stream : Stream) : String :=
  match terminal.console with
  | some console => console.on stream
  | none => ""

end Terminal

end FileChores
