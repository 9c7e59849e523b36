import FileChores.CommandLine
import FileChores.FileSystem.Scripted
import FileChores.Proofs.Grammar.Script
import FileChores.Proofs.Run.Recorded
import Mathlib

/-!
# What a call of the program shows

A run on a terminal that echoes is the run on one that only records, and its console holds the
recorded lines of either stream as they were written, one after another. So a call shows what the
script prints, however the run ends, and nothing when no script is run.
-/

namespace FileChores

variable {σ : Type}

/-! ## Consoles -/

namespace Console

theorem styling_write (console : Console) (line : Line) :
    (console.write line).styling = console.styling := by
  rw [write]
  cases line.stream <;> rfl

theorem on_write (console : Console) (line : Line) (stream : Stream) :
    (console.write line).on stream =
      if line.stream = stream then console.on stream ++ line.written console.styling
      else console.on stream := by
  rw [write]
  cases line.stream <;> cases stream <;> rfl

theorem on_foldl_write (lines : List Line) (console : Console) (stream : Stream) :
    (lines.foldl write console).on stream = console.on stream ++
      String.join ((lines.filter (·.stream = stream)).map (Line.written console.styling)) := by
  induction lines generalizing console with
  | nil => simp
  | cons line lines ih =>
      rw [List.foldl_cons, ih, on_write, styling_write]
      by_cases h : line.stream = stream
      · simp [h, String.append_assoc]
      · simp [h]

end Console

namespace Terminal

/-- The recorded lines of one stream, as they are written one after another. -/
def shown (styling : Styling) (stream : Stream) (terminal : Terminal) : String :=
  String.join ((terminal.lines.toList.filter (·.stream = stream)).map (Line.written styling))

theorem shown_eq (styling : Styling) (stream : Stream) (terminal : Terminal) :
    terminal.shown styling stream =
      String.join ((terminal.textsOn stream).map fun text => styling stream text ++ "\n") := by
  rw [shown, textsOn, List.map_map]
  refine congrArg String.join (List.map_congr_left fun line hline => ?_)
  have hstream : line.stream = stream := by simpa using (List.mem_filter.1 hline).2
  rw [Line.written, hstream]
  rfl

/-- The terminal with all its lines on a console. -/
def live (styling : Styling) (terminal : Terminal) : Terminal :=
  ⟨terminal.lines, some (terminal.lines.toList.foldl Console.write { styling })⟩

theorem live_push (styling : Styling) (terminal : Terminal) (line : Line) :
    (terminal.push line).live styling = (terminal.live styling).push line := by
  simp [live, push]

theorem echoed_live (styling : Styling) (terminal : Terminal) (stream : Stream) :
    (terminal.live styling).echoed stream = terminal.shown styling stream := by
  have hempty : ({ styling } : Console).on stream = "" := by cases stream <;> rfl
  show Console.on (terminal.lines.toList.foldl Console.write { styling }) stream = _
  rw [Console.on_foldl_write, hempty, String.empty_append, shown]

end Terminal

/-! ## Runs on a terminal that echoes -/

def Machine.live (styling : Styling) (m : Machine σ) : Machine σ :=
  { m with terminal := m.terminal.live styling }

namespace Run

theorem live_acts (styling : Styling) (system : FileSystem σ) :
    Machine.ActsAlike id (fun m n => n = m.live styling) system system where
  environment hm := by rw [hm]; rfl
  insert hm _ _ := by rw [hm]; rfl
  stand hm _ := by rw [hm]; rfl
  tell hm event := by rw [hm, event.moved_id]; rfl
  push {m m'} hm line := by
    obtain rfl : m' = m.live styling := hm
    have hpush := m.terminal.live_push styling line
    exact congrArg (fun terminal => { m with terminal := terminal }) hpush.symm
  answer hm _ := by rw [hm]; rfl
  ask hm _ := by rw [hm]; rfl

end Run

open Run

namespace Program

theorem runFrom_live (styling : Styling) (s : Setting σ) (program : Program) (m : Machine σ) :
    program.runFrom s (m.live styling) =
      ((program.runFrom s m).1, (program.runFrom s m).2.live styling) := by
  have hacts := live_acts styling s.files
  have halike := program.runFrom_alike_id hacts.toStepsAlike
    (hacts.lockstep s.limits s.patience) (m := m) rfl
  exact Prod.ext halike.1 halike.2

theorem executeOn_echoing (styling : Styling) (system : FileSystem σ) (limits : Limits)
    (source : String) (files : σ) :
    executeOn (.echoing styling) system limits source files =
      (execute system limits source files).map fun run => (run.1, run.2.live styling) := by
  rw [execute, executeOn, executeOn]
  cases ofSource source with
  | error e => rfl
  | ok program =>
      have hrun := program.runFrom_live styling (limits.setting system) (.fresh files)
      change program.runFrom (limits.setting system)
        { Machine.fresh files with terminal := .echoing styling } = _ at hrun
      simp only [bind, Except.bind, hrun]
      rfl

end Program

/-! ## Calls of the program -/

namespace Outcome

def exitCode : Outcome → Nat
  | finished => 0
  | aborted _ | unfinished => 1

def complaint : Outcome → String
  | aborted fault => s!"Error: {(ScriptError.fault fault).message}\n"
  | finished | unfinished => ""

end Outcome

namespace CommandLine

theorem parseFrom_color {choice : Choice} {arguments : List String} {invocation : Invocation}
    (h : parseFrom choice arguments = .ok invocation) :
    invocation.color = (choice.color && !arguments.contains "--no-color") := by
  have hvalue : ∀ value limit, limit? value = some limit → "--no-color" ≠ value := by
    rintro value limit hlimit rfl
    have hnone : limit? "--no-color" = none := by decide
    cases hnone.symm.trans hlimit
  fun_induction parseFrom choice arguments with
  | case1 =>
      cases h
      simp
  | case4 _ value _ limit hlimit ih | case7 _ value _ limit hlimit ih =>
      simp [ih h, hvalue value limit hlimit]
  | case9 _ _ ih => simp [ih h]
  | case12 _ argument _ _ _ _ _ hargument _ _ ih =>
      have : "--no-color" ≠ argument := fun heq => hargument heq.symm
      simp [ih h, this]
  | case2 | case3 | case5 | case6 | case8 | case10 | case11 => cases h

theorem runText_eq (styling : Styling) (system : FileSystem σ) (invocation : Invocation)
    (text : String) (files : σ) :
    runText styling system invocation text files =
      match Program.execute system invocation.limits (Text.trim text) files with
      | .error e => (.failure (ScriptError.source e).message, files)
      | .ok (outcome, m) =>
          let worn := styling.when invocation.color
          (⟨outcome.exitCode, m.terminal.shown worn .output,
            m.terminal.shown worn .errors ++ outcome.complaint⟩, m.files) := by
  rw [runText, Program.executeOn_echoing]
  rcases Program.execute system invocation.limits (Text.trim text) files with e | ⟨outcome, m⟩
  · rfl
  · cases outcome <;>
      simp [Except.map, Machine.live, Terminal.echoed_live, Outcome.exitCode, Outcome.complaint,
        String.append_assoc, toString]

theorem fromUTF8?_eq_some_iff {bytes : ByteArray} {text : String} :
    String.fromUTF8? bytes = some text ↔ bytes = text.toUTF8 := by
  constructor
  · intro h
    unfold String.fromUTF8? at h
    split at h
    · cases h
      rfl
    · cases h
  · rintro rfl
    simp [String.fromUTF8?, String.toUTF8, text.isValidUTF8]
    rfl

/-- A call shows what the script prints as the library runs it, line by line and up to where the run
ends, and leaves the files as that run does. Each text is on its own line, styled as the console
does it unless the arguments ask for plain texts. With arguments that are rejected, or a script that
is no text, the call shows no line and touches no file; so it does when the text is no program. -/
theorem respond_shows_run (styling : Styling) (system : FileSystem σ)
    (read : String → Except String ByteArray) (arguments : List String) (files : σ) :
    (∀ invocation (text : String), parse arguments = .ok invocation →
      read invocation.script = .ok text.toUTF8 →
      respondIn styling system read arguments files =
        match Program.execute system invocation.limits (Text.trim text) files with
        | .error e => (⟨1, "", "Error: " ++ (ScriptError.source e).message ++ "\n"⟩, files)
        | .ok (outcome, m) =>
            let look (stream : Stream) (text : String) :=
              if "--no-color" ∈ arguments then text else styling stream text
            let shown (stream : Stream) :=
              String.join ((m.terminal.textsOn stream).map fun text => look stream text ++ "\n")
            (⟨outcome.exitCode, shown .output, shown .errors ++ outcome.complaint⟩, m.files)) ∧
    ((∀ invocation (text : String), parse arguments = .ok invocation →
        read invocation.script ≠ .ok text.toUTF8) →
      (respondIn styling system read arguments files).1.code = 1 ∧
      (respondIn styling system read arguments files).1.output = "" ∧
      (respondIn styling system read arguments files).2 = files) := by
  constructor
  · intro invocation text hparse hread
    have hworn : styling.when invocation.color =
        fun stream text => if "--no-color" ∈ arguments then text else styling stream text := by
      rw [parseFrom_color hparse]
      funext stream text
      by_cases hplain : "--no-color" ∈ arguments <;> simp [Styling.when, hplain]
    have htext : String.fromUTF8? text.toUTF8 = some text := fromUTF8?_eq_some_iff.2 rfl
    simp only [respondIn, hparse, hread, htext, runText_eq, Terminal.shown_eq, hworn]
    rfl
  · intro hrejected
    rw [respondIn]
    cases hparse : parse arguments with
    | error e => exact ⟨rfl, rfl, rfl⟩
    | ok invocation =>
        cases hread : read invocation.script with
        | error cause => simp [hread, unreadable, Report.failure]
        | ok bytes =>
            cases htext : String.fromUTF8? bytes with
            | none => simp [hread, htext, unreadable, Report.failure]
            | some text =>
                rw [fromUTF8?_eq_some_iff] at htext
                exact absurd (htext ▸ hread) (hrejected invocation text hparse)

/-- The same run in colour and without. -/
theorem respond_shows_run_aborted :
    let script := "\x7b ListFiles(\"d\") DeleteFile(\"y\") Wait() \x7d\n"
    let responses := Scripted.ofResponses [.grant 0 ["x"], .fail (.notFound "y")]
    parse ["s"] = .ok ⟨"s", {}, true⟩ ∧
    respond Scripted.fileSystem (fun _ => .ok script.toUTF8) ["s"] responses =
      (⟨1, "\x1b[38;5;10mFiles in d:\x1b[39m\n\x1b[38;5;10m  x\x1b[39m\n",
        "\x1b[38;5;11mFile not found: y\x1b[39m\n" ++
          "Error: Runtime error: Wait expects 1 argument, got 0 at line 1\n"⟩,
        ⟨[], #[.list "d", .delete "y"]⟩) ∧
    parse ["--no-color", "s"] = .ok ⟨"s", {}, false⟩ ∧
    respond Scripted.fileSystem (fun _ => .ok script.toUTF8) ["--no-color", "s"] responses =
      (⟨1, "Files in d:\n  x\n", "File not found: y\n" ++
          "Error: Runtime error: Wait expects 1 argument, got 0 at line 1\n"⟩,
        ⟨[], #[.list "d", .delete "y"]⟩) := by
  intro script responses
  have hparse : parse ["s"] = .ok ⟨"s", {}, true⟩ := rfl
  have hplain : parse ["--no-color", "s"] = .ok ⟨"s", {}, false⟩ := rfl
  have hsource : Program.ofSource (Text.trim script) =
      .ok ⟨[.call .listFiles [.text "d" ⟨1, 13⟩] ⟨1, 3⟩,
        .call .deleteFile [.text "y" ⟨1, 29⟩] ⟨1, 18⟩, .call .wait [] ⟨1, 34⟩]⟩ := by
    refine Program.ofSource_eq_ok_iff_ofLexemes.2 ⟨?lexemes, ?scanned, ?parsed⟩
    case scanned =>
      cbv
      rfl
    case parsed => cbv
  refine ⟨hparse, ?_, hplain, ?_⟩
  · have hcolor : "--no-color" ∉ ["s"] := by decide
    rw [respond, (respond_shows_run _ _ _ _ _).1 _ _ hparse rfl, Program.execute,
      Program.executeOn, hsource]
    simp only [hcolor, if_false]
    rfl
  · have hcolor : "--no-color" ∈ ["--no-color", "s"] := .head _
    rw [respond, (respond_shows_run _ _ _ _ _).1 _ _ hplain rfl, Program.execute,
      Program.executeOn, hsource]
    simp only [hcolor, if_true]
    rfl

end CommandLine

end FileChores
