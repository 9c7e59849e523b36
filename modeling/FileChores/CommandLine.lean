import FileChores.Session
import FileChores.Text.Blank

/-!
# The command line

Options and one script, in any order. The script is read and run on a terminal that echoes, and the
call is answered with what came to the console and an exit code. The white space around the text of
a script is left out before it is read.
-/

namespace FileChores.CommandLine

structure Invocation where
  script : String
  limits : Limits
  color : Bool
  deriving DecidableEq, Repr

inductive UsageError
  | missingValue (option : String)
  | badIterations (value : String)
  | badWait (value : String)
  | unknownOption (option : String)
  | unexpectedArgument (argument : String)
  | noScript
  deriving DecidableEq, Repr

namespace UsageError

def message : UsageError → String
  | missingValue option => s!"{option} needs a value"
  | badIterations value => s!"invalid iteration limit '{value}'"
  | badWait value => s!"invalid wait limit '{value}'"
  | unknownOption option => s!"unknown option '{option}'"
  | unexpectedArgument argument => s!"unexpected argument '{argument}'"
  | noScript => "no script file provided"

end UsageError

def limitBound : Nat := UInt64.size

/-- Decimal digits, with or without a plus sign, below the bound. -/
def limit? (spelling : String) : Option Nat :=
  let digits := match spelling.toList with
    | '+' :: digits => digits
    | digits => digits
  if digits ≠ [] ∧ digits.all Char.isDigit ∧ Nat.ofDigitChars 10 digits 0 < limitBound then
    some (Nat.ofDigitChars 10 digits 0)
  else none

/-- What the arguments so far have said. -/
structure Choice where
  script : Option String
  limits : Limits
  color : Bool

/-- Reads the arguments from left to right. The argument behind an option with a value is that value
whatever it looks like, and the last value of an option counts. -/
def parseFrom (choice : Choice) : List String → Except UsageError Invocation
  | [] =>
      match choice.script with
      | some script => .ok ⟨script, choice.limits, choice.color⟩
      | none => .error .noScript
  | ["--max-iterations"] => .error (.missingValue "--max-iterations")
  | "--max-iterations" :: value :: rest =>
      match limit? value with
      | some limit =>
          parseFrom { choice with limits := { choice.limits with maxIterations := limit } } rest
      | none => .error (.badIterations value)
  | ["--max-wait"] => .error (.missingValue "--max-wait")
  | "--max-wait" :: value :: rest =>
      match limit? value with
      | some limit =>
          parseFrom { choice with limits := { choice.limits with maxWait := limit } } rest
      | none => .error (.badWait value)
  | "--no-color" :: rest => parseFrom { choice with color := false } rest
  | argument :: rest =>
      if "--".isPrefixOf argument then .error (.unknownOption argument)
      else
        match choice.script with
        | some _ => .error (.unexpectedArgument argument)
        | none => parseFrom { choice with script := argument } rest

def parse (arguments : List String) : Except UsageError Invocation :=
  parseFrom ⟨none, {}, true⟩ arguments

def programName : String := "filescript"

def usage : String :=
  "\n".intercalate
    [s!"Usage: {programName} [--max-iterations N] [--max-wait MS] [--no-color] <script>",
      "",
      "Options:",
      "  --max-iterations N   abort when a single loop runs more than N iterations",
      "  --max-wait MS        sleep at most MS milliseconds per Wait",
      "  --no-color           print command output without styling"]

/-- What a call of the program writes, and its exit code. -/
structure Report where
  code : Nat
  output : String
  errors : String
  deriving DecidableEq, Repr

namespace Report

def failure (message : String) : Report := ⟨1, "", s!"Error: {message}\n"⟩

end Report

/-- How the script is named when it cannot be read. -/
def unreadable (script cause : String) : Report :=
  .failure s!"cannot read '{script}': {cause}"

section

variable {σ : Type}

/-- Runs the text of a script. Of a run only the console, the outcome and the files are left: the
recorded lines are not looked at. -/
def runText (styling : Styling) (system : FileSystem σ) (invocation : Invocation) (text : String)
    (files : σ) : Report × σ :=
  match Program.executeOn (.echoing (styling.when invocation.color)) system invocation.limits
      (Text.trim text) files with
  | .error e => (.failure (ScriptError.source e).message, files)
  | .ok (outcome, m) =>
      let output := m.terminal.echoed .output
      let errors := m.terminal.echoed .errors
      match outcome with
      | .finished => (⟨0, output, errors⟩, m.files)
      | .aborted fault =>
          (⟨1, output, s!"{errors}Error: {(ScriptError.fault fault).message}\n"⟩, m.files)
      | .unfinished => (⟨1, output, errors⟩, m.files)

/-- Answers a call of the program on a console with its own styling. `read` gives the bytes of a
script or says why there are none. -/
def respondIn (styling : Styling) (system : FileSystem σ)
    (read : String → Except String ByteArray) (arguments : List String) (files : σ) : Report × σ :=
  match parse arguments with
  | .error e => (⟨1, "", s!"Error: {e.message}\n\n{usage}\n"⟩, files)
  | .ok invocation =>
      match read invocation.script with
      | .error cause => (unreadable invocation.script cause, files)
      | .ok bytes =>
          match String.fromUTF8? bytes with
          | none => (unreadable invocation.script "stream did not contain valid UTF-8", files)
          | some text => runText styling system invocation text files

def respond (system : FileSystem σ) (read : String → Except String ByteArray)
    (arguments : List String) (files : σ) : Report × σ :=
  respondIn .escapes system read arguments files

end

end FileChores.CommandLine
