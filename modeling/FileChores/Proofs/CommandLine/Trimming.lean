import FileChores.Proofs.CommandLine.Echo
import FileChores.Proofs.Grammar.Moving
import FileChores.Proofs.Lexing.Moving
import FileChores.Proofs.Messages

/-!
# Where a call says that an error is

A script is read without the white space around it. What a call names is a place of the text
inside: the lines and columns of a message are counted from the first character that is not white
space, and the end of the script is where that text ends. The place in the file is as far behind the
white space in front.
-/

namespace FileChores

variable {σ : Type}

/-! ## The text inside the white space -/

namespace Text

def lead (s : String) : List Char :=
  s.toList.takeWhile isBlank

def trail (s : String) : List Char :=
  ((s.toList.dropWhile isBlank).reverse.takeWhile isBlank).reverse

theorem toList_eq_trim (s : String) :
    s.toList = lead s ++ ((trim s).toList ++ trail s) := by
  have hinside : (trim s).toList ++ trail s = s.toList.dropWhile isBlank := by
    rw [trim, trail, String.toList_ofList, ← List.reverse_append,
      List.takeWhile_append_dropWhile, List.reverse_reverse]
  rw [hinside, lead, List.takeWhile_append_dropWhile]

/-- The white space around the text is such that the lexer skips it. -/
def SkippedAround (s : String) : Prop :=
  (lead s).all Lexeme.isSkipped = true ∧ (trail s).all Lexeme.isSkipped = true

/-- The place in the file of a place of the text inside. -/
def inFile (s : String) : Position → Position :=
  (Position.behind (lead s)).shift

end Text

open Text

/-! ## Reading -/

namespace SourceError

def AtEnd : SourceError → Prop
  | lexical _ => False
  | grammatical e => e.found = none

def inFile (text : String) : SourceError → SourceError
  | lexical e => lexical (e.moved (Text.inFile text))
  | grammatical e => grammatical (e.moved (Text.inFile text) (.behind text.toList))

theorem detail_inFile (text : String) (e : SourceError) :
    (e.inFile text).detail = e.detail := by
  cases e <;> rfl

/-- What is in front of the text does not count: there is nothing, or no line feed and the error is
on a later line. Nor does what is behind it, where the text ends. -/
def KeepsPlace (text : String) (e : SourceError) : Prop :=
  (lead text = [] ∨ '\n' ∉ lead text ∧ e.pos.line ≠ 1) ∧ (e.AtEnd → trail text = [])

end SourceError

namespace Lexemes

/-- The lexemes of the whole text are those of the text inside, behind the white space. -/
theorem ofSource_inFile {text : String} (h : SkippedAround text) :
    ofSource text =
      ((ofSource (trim text)).mapError (LexError.moved (inFile text))).map fun lexemes =>
        ⟨lexemes.list.map (Lexeme.moved (inFile text)), .behind text.toList⟩ := by
  have hmoved : ∀ run, inFile text (Position.start.after run) =
      (Position.behind (lead text)).after run := by
    intro run
    rw [← Position.behind_eq_after, inFile, Position.shift_behind, Position.behind_append]
  have hscan : ofSource text = (scan (.behind (lead text)) (trim text).toList).map fun lexemes =>
      ⟨lexemes.list, lexemes.finish.after (trail text)⟩ := by
    rw [ofSource, toList_eq_trim, scan_gap h.1, scan_append_skipped h.2,
      ← Position.behind_eq_after]
  rw [hscan, scan_moved hmoved, ← ofSource]
  cases hinside : ofSource (trim text) with
  | error e => rfl
  | ok lexemes =>
      have hfinish : (inFile text lexemes.finish).after (trail text) = .behind text.toList := by
        rw [finish_of_ofSource hinside, inFile, Position.shift_behind, ← Position.behind_append,
          List.append_assoc, ← toList_eq_trim]
      simp only [Except.mapError, Except.map, Lexemes.moved, hfinish]

end Lexemes

namespace Program

theorem ofSource_inFile {text : String} (h : SkippedAround text) :
    ofSource text =
      ((ofSource (trim text)).mapError (SourceError.inFile text)).map
        (Program.moved (inFile text)) := by
  rw [ofSource, ofSource, Lexemes.ofSource_inFile h]
  cases Lexemes.ofSource (trim text) with
  | error e => rfl
  | ok lexemes =>
      show (ofLexemes ⟨lexemes.list.map _, _⟩).1.mapError _ = _
      rw [ofLexemes_moved]
      cases hparse : (ofLexemes lexemes).1 <;> simp only [hparse] <;> rfl

theorem pos_of_ofSource {source : String} {e : SourceError} (h : ofSource source = .error e)
    (hend : e.AtEnd) : e.pos = .behind source.toList := by
  rw [ofSource] at h
  cases hlexemes : Lexemes.ofSource source with
  | error e' =>
      rw [hlexemes] at h
      cases h
      cases hend
  | ok lexemes =>
      rw [hlexemes] at h
      cases hparse : (ofLexemes lexemes).1 with
      | ok program =>
          simp only [hparse] at h
          cases h
      | error e' =>
          simp only [hparse] at h
          cases h
          rw [SourceError.pos, pos_of_ofLexemes hparse hend, Lexemes.finish_of_ofSource hlexemes]

/-- An error keeps its place just when the white space around the text does not count. -/
theorem pos_eq_inFile_iff {text : String} {e : SourceError}
    (hsource : ofSource (trim text) = .error e) :
    e.pos = (e.inFile text).pos ↔ e.KeepsPlace text := by
  have hshift := Position.shift_eq_iff (lead text) e.pos
  cases e with
  | lexical e =>
      rw [eq_comm]
      exact hshift.trans ⟨fun h => ⟨h, False.elim⟩, And.left⟩
  | grammatical e =>
      cases hfound : e.found with
      | some token =>
          have hpos : ((SourceError.grammatical e).inFile text).pos = inFile text e.pos := by
            simp [SourceError.inFile, SourceError.pos, ParseError.moved, hfound]
          rw [hpos, eq_comm]
          refine hshift.trans ⟨fun h => ⟨h, fun hend => ?_⟩, And.left⟩
          cases hfound.symm.trans hend
      | none =>
          have hend : (SourceError.grammatical e).AtEnd := hfound
          have hpos : ((SourceError.grammatical e).inFile text).pos =
              .behind (lead text ++ ((trim text).toList ++ trail text)) := by
            rw [← toList_eq_trim]
            simp [SourceError.inFile, SourceError.pos, ParseError.moved, hfound]
          rw [hpos, SourceError.KeepsPlace, pos_of_ofSource hsource hend, eq_comm,
            Position.behind_inside_eq_iff]
          exact ⟨fun h => ⟨h.2, fun _ => h.1⟩, fun h => ⟨h.2 hend, h.1⟩⟩

/-! ## Running -/

def InFile (text : String) :
    Except SourceError (Outcome × Machine σ) → Except SourceError (Outcome × Machine σ) → Prop
  | .error e, whole => whole = .error (e.inFile text)
  | .ok (outcome, m), whole =>
      ∃ m', whole = .ok (outcome.moved (inFile text), m') ∧ m.Moved (inFile text) m'

def runRead (system : FileSystem σ) (limits : Limits) (files : σ) (program : Program) :
    Outcome × Machine σ :=
  let (outcome, m) := program.runFrom (limits.setting system) (.fresh files)
  (outcome, { m with trace := #[.parsed program.body.length] ++ m.trace })

theorem execute_eq_map (system : FileSystem σ) (limits : Limits) (source : String) (files : σ) :
    execute system limits source files =
      (ofSource source).map (runRead system limits files) := by
  rw [execute, executeOn]
  cases ofSource source <;> rfl

theorem runRead_moved (f : Position → Position) (system : FileSystem σ) (limits : Limits)
    (files : σ) (program : Program) :
    ((program.moved f).runRead system limits files).1 =
        (program.runRead system limits files).1.moved f ∧
      (program.runRead system limits files).2.Moved f
        ((program.moved f).runRead system limits files).2 := by
  have hfresh : Machine.Moved f (Machine.fresh files) (Machine.fresh files) :=
    ⟨rfl, Array.map_empty.symm, Array.map_empty.symm, rfl⟩
  obtain ⟨houtcome, hmoved⟩ := program.runFrom_moved (limits.setting system) hfresh
  refine ⟨houtcome, hmoved.environment, hmoved.lines, ?_, hmoved.files⟩
  have htrace := hmoved.trace
  have hlength := Statement.length_movedBlock f program.body
  simp only [runRead, Program.moved, hlength] at htrace ⊢
  rw [htrace]
  simp [Event.moved]

theorem execute_eq_error_iff {system : FileSystem σ} {limits : Limits} {source : String} {files : σ}
    {e : SourceError} :
    execute system limits source files = .error e ↔ ofSource source = .error e := by
  rw [execute_eq_map]
  cases ofSource source <;> simp [Except.map]

theorem execute_inFile (system : FileSystem σ) (limits : Limits) (files : σ) {text : String}
    (h : SkippedAround text) :
    InFile text (execute system limits (trim text) files) (execute system limits text files) := by
  rw [execute_eq_map, execute_eq_map, ofSource_inFile h]
  cases ofSource (trim text) with
  | error e => rfl
  | ok program =>
      obtain ⟨houtcome, hmoved⟩ := runRead_moved (inFile text) system limits files program
      exact ⟨_, congrArg Except.ok (Prod.ext houtcome rfl), hmoved⟩

end Program

/-! ## Calls of the program -/

namespace CommandLine

def reported (color : Bool) (files : σ) :
    Except SourceError (Outcome × Machine σ) → Report × σ
  | .error e => (.failure (ScriptError.source e).message, files)
  | .ok (outcome, m) =>
      (⟨outcome.exitCode, m.terminal.shown (Styling.escapes.when color) .output,
        m.terminal.shown (Styling.escapes.when color) .errors ++ outcome.complaint⟩, m.files)

theorem respond_eq_reported {system : FileSystem σ} {read : String → Except String ByteArray}
    {arguments : List String} (files : σ) {invocation : Invocation} {text : String}
    (hparse : parse arguments = .ok invocation)
    (hread : read invocation.script = .ok text.toUTF8) :
    respond system read arguments files = reported invocation.color files
      (Program.execute system invocation.limits (trim text) files) := by
  have htext : String.fromUTF8? text.toUTF8 = some text := fromUTF8?_eq_some_iff.2 rfl
  simp only [respond, respondIn, hparse, hread, htext, runText_eq]
  cases Program.execute system invocation.limits (trim text) files <;> rfl

/-- What an answer says of a place holds of the file as well. A fault tells its line alone. -/
def NamesFile (text : String) : Except SourceError (Outcome × Machine σ) → Prop
  | .error e => e.KeepsPlace text
  | .ok (.aborted _, _) => '\n' ∉ lead text
  | .ok _ => True

theorem failure_inj {message message' : String} :
    Report.failure message = Report.failure message' ↔ message = message' := by
  refine ⟨fun h => ?_, congrArg Report.failure⟩
  have herrors : "Error: " ++ message ++ "\n" = "Error: " ++ message' ++ "\n" :=
    congrArg Report.errors h
  rwa [String.append_left_inj, String.append_right_inj] at herrors

theorem complaint_aborted_inj {fault fault' : Fault} :
    (Outcome.aborted fault).complaint = (Outcome.aborted fault').complaint ↔
      fault.message = fault'.message := by
  refine ⟨fun h => ?_, fun h => ?_⟩
  · have hcomplaint : "Error: " ++ ("Runtime error: " ++ fault.message) ++ "\n" =
        "Error: " ++ ("Runtime error: " ++ fault'.message) ++ "\n" := h
    rwa [String.append_left_inj, String.append_right_inj, String.append_right_inj] at hcomplaint
  · show "Error: " ++ ("Runtime error: " ++ fault.message) ++ "\n" = _
    rw [h]
    rfl

theorem shown_moved {f : Position → Position} {m m' : Machine σ} (h : m.Moved f m')
    (styling : Styling) (stream : Stream) :
    m'.terminal.shown styling stream = m.terminal.shown styling stream := by
  rw [Terminal.shown, Terminal.shown, h.lines, Array.toList_map, List.filter_map, List.map_map]
  rfl

theorem exitCode_moved (f : Position → Position) (outcome : Outcome) :
    (outcome.moved f).exitCode = outcome.exitCode := by
  cases outcome <;> rfl

theorem complaint_moved_eq_iff (text : String) (outcome : Outcome) (m : Machine σ) :
    outcome.complaint = (outcome.moved (inFile text)).complaint ↔
      NamesFile text (.ok (outcome, m)) := by
  cases outcome with
  | finished | unfinished => exact ⟨fun _ => trivial, fun _ => rfl⟩
  | aborted fault =>
      rw [Outcome.moved, complaint_aborted_inj, eq_comm, Fault.message_moved_eq_iff, inFile,
        Position.line_shift, NamesFile, ← List.count_eq_zero]
      omega

theorem reported_eq_iff {system : FileSystem σ} {limits : Limits} {files : σ} {text : String}
    (h : SkippedAround text) (color : Bool) :
    reported color files (Program.execute system limits (trim text) files) =
        reported color files (Program.execute system limits text files) ↔
      NamesFile text (Program.execute system limits (trim text) files) := by
  have hwhole := Program.execute_inFile system limits files h
  cases hinside : Program.execute system limits (trim text) files with
  | error e =>
      rw [hinside, Program.InFile] at hwhole
      rw [hwhole, NamesFile,
        ← Program.pos_eq_inFile_iff (Program.execute_eq_error_iff.1 hinside),
        ← SourceError.message_eq_iff (SourceError.detail_inFile text e).symm]
      simp only [reported, Prod.mk.injEq, and_true]
      exact failure_inj
  | ok run =>
      obtain ⟨outcome, m⟩ := run
      rw [hinside] at hwhole
      obtain ⟨m', hrun, hmoved⟩ := hwhole
      rw [hrun, ← complaint_moved_eq_iff]
      simp only [reported, shown_moved hmoved, exitCode_moved, hmoved.files, Prod.mk.injEq,
        Report.mk.injEq, true_and, and_true, String.append_right_inj]

/-- A call answers as the run of the text inside comes out, and the run of the whole text is that
run with every place moved behind the white space in front. So the answer is the one that the file
as it stands would have just when the white space around the text does not count. With a line feed
in front of the text no error and no fault is placed where it is in the file. -/
theorem respond_counts_inside {system : FileSystem σ} {read : String → Except String ByteArray}
    {arguments : List String} (files : σ) {invocation : Invocation} {text : String}
    (hparse : parse arguments = .ok invocation)
    (hread : read invocation.script = .ok text.toUTF8) (h : SkippedAround text) :
    let inside := Program.execute system invocation.limits (trim text) files
    let whole := Program.execute system invocation.limits text files
    respond system read arguments files = reported invocation.color files inside ∧
      Program.InFile text inside whole ∧
      (respond system read arguments files = reported invocation.color files whole ↔
        NamesFile text inside) := by
  intro inside whole
  have hrespond : respond system read arguments files = reported invocation.color files inside :=
    respond_eq_reported files hparse hread
  refine ⟨hrespond, Program.execute_inFile _ _ _ h, ?_⟩
  rw [hrespond]
  exact reported_eq_iff h invocation.color

theorem respond_counts_inside_aborted :
    parse ["s"] = .ok ⟨"s", {}, true⟩ ∧ SkippedAround "\n\x7b Wait() \x7d" ∧
    respond Scripted.fileSystem (fun _ => .ok "\n\x7b Wait() \x7d".toUTF8) ["s"]
        (.ofResponses []) ≠
      reported true (.ofResponses [])
        (Program.execute Scripted.fileSystem {} "\n\x7b Wait() \x7d" (.ofResponses [])) := by
  have hparse : parse ["s"] = .ok ⟨"s", {}, true⟩ := rfl
  have hskipped : SkippedAround "\n\x7b Wait() \x7d" := by
    constructor <;> decide
  have hsource : Program.ofSource (trim "\n\x7b Wait() \x7d") = .ok ⟨[.call .wait [] ⟨1, 3⟩]⟩ := by
    refine Program.ofSource_eq_ok_iff_ofLexemes.2 ⟨?lexemes, ?scanned, ?parsed⟩
    case scanned =>
      cbv
      rfl
    case parsed => cbv
  have hlead : lead "\n\x7b Wait() \x7d" = ['\n'] := by decide
  refine ⟨hparse, hskipped, fun hanswer => ?_⟩
  have hnames := (respond_counts_inside _ hparse rfl hskipped).2.2.1 hanswer
  rw [Program.execute_eq_map, hsource] at hnames
  change '\n' ∉ lead _ at hnames
  rw [hlead] at hnames
  exact hnames (.head _)

/-- The command stands on the second line of its file, and a call names the first. -/
theorem respond_names_line_above :
    (∃ e, Program.execute Scripted.fileSystem {} "\n\x7b Frob() \x7d" (.ofResponses []) = .error e ∧
      e.message = "Parse error at line 2, column 3: Unknown command 'Frob'") ∧
    respond Scripted.fileSystem (fun _ => .ok "\n\x7b Frob() \x7d".toUTF8) ["s"]
        (.ofResponses []) =
      (⟨1, "", "Error: Parse error at line 1, column 3: Unknown command 'Frob'\n"⟩,
        .ofResponses []) := by
  have hinside : Program.ofSource (trim "\n\x7b Frob() \x7d") =
      .error (.grammatical ⟨.unknownCommand "Frob", some (.word "Frob"), ⟨1, 3⟩⟩) := by
    cbv
  have hskipped : SkippedAround "\n\x7b Frob() \x7d" := by
    constructor <;> decide
  have hlead : lead "\n\x7b Frob() \x7d" = ['\n'] := by decide
  have hparse : parse ["s"] = .ok ⟨"s", {}, true⟩ := rfl
  rw [respond_eq_reported _ hparse rfl, Program.execute_eq_map, Program.execute_eq_map,
    Program.ofSource_inFile hskipped, hinside]
  exact ⟨⟨_, rfl, by rw [SourceError.inFile, inFile, hlead]; rfl⟩, rfl⟩

end CommandLine

end FileChores
