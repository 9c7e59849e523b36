import FileChores.Proofs.Number.Truncation
import FileChores.Proofs.Run.Congruence
import FileChores.Proofs.Run.Result

/-!
# What a call does

A call on the right number of arguments never faults. It tells the trace that it was dispatched,
asks the file system at most once, and prints what the answer calls for; in the end it changes
nothing else.
-/

namespace FileChores

structure Exchange where
  request : Request
  answer : Answer request

def Request.command : Request → Command
  | move _ _ => .moveFile
  | copy _ _ => .copyFile
  | rename _ _ => .renameFile
  | delete _ => .deleteFile
  | list _ => .listFiles
  | count _ => .countFiles
  | space _ => .checkSpace

def Request.texts : Request → List String
  | move source target | copy source target | rename source target => [source, target]
  | delete path | list path | count path | space path => [path]

def FileError.reported (command : Command) (e : FileError) : String :=
  match e with
  | notFound _ | directoryNotFound _ => e.message
  | refused _ _ => s!"Error running {command.name}: {e.message}"

theorem CommandError.report_file (command : Command) (e : FileError) :
    (file e).report command = e.reported command := by
  cases e <;> rfl

theorem CommandError.report_invalidDuration (command : Command) (duration : Value) :
    (invalidDuration duration).report command =
      s!"Error running {command.name}: {(invalidDuration duration).message}" :=
  rfl

namespace Exchange

def lines (exchange : Exchange) (pos : Position) : List Line :=
  match exchange.answer.result with
  | .ok reply => (exchange.request.confirmation reply).map (⟨·, .output, pos⟩)
  | .error e => [⟨e.reported exchange.request.command, .errors, pos⟩]

/-- The value of the call. A query that fails is worth zero. -/
def value (exchange : Exchange) : Option Value :=
  match exchange.answer.result with
  | .ok reply => exchange.request.value reply
  | .error _ => if exchange.request.command.isQuery then some Run.failedQuery else none

end Exchange

namespace Value

def milliseconds? : Value → Option Nat
  | number x =>
      if x.isFinite && 0 ≤ x then some (min (Number.whole x) (UInt64.size - 1)) else none
  | text _ => none

def waitLine (duration : Value) (pos : Position) : Line :=
  match duration.milliseconds? with
  | some n => ⟨s!"Waiting {n} ms...", .output, pos⟩
  | none =>
      ⟨s!"Error running {Command.wait.name}: {(CommandError.invalidDuration duration).message}",
        .errors, pos⟩

theorem milliseconds_eq (duration : Value) : CommandError.milliseconds duration =
    match duration.milliseconds? with
    | some n => .ok n
    | none => .error (.invalidDuration duration) := by
  cases duration with
  | text content => rfl
  | number x =>
      rw [CommandError.milliseconds, milliseconds?]
      by_cases h : (x.isFinite && decide (0 ≤ x)) = true
      · rw [if_pos h, if_pos h]
        rw [Bool.and_eq_true, decide_eq_true_eq] at h
        rw [Number.toUInt64_eq h.1 h.2]
      · rw [if_neg h, if_neg h]

end Value

namespace Event

def call? : Event → Option (Command × List Value × Position)
  | dispatched command args pos => some (command, args, pos)
  | _ => none

def failure? : Event → Option Line
  | commandFailed command e pos => some ⟨e.report command, .errors, pos⟩
  | _ => none

def isReport : Event → Bool
  | copied _ | copiedInstead _ _ _ | waitCapped _ _ _ | commandFailed _ _ _ => true
  | _ => false

end Event

/-- What a call tells behind its dispatch, when it prints the lines: one failure for each line on
the stream of errors. -/
structure Reports (events : List Event) (lines : List Line) : Prop where
  isReport : ∀ event ∈ events, event.isReport = true
  failures : events.filterMap Event.failure? = lines.filter (·.stream = .errors)

theorem Reports.call?_eq_none {events : List Event} {lines : List Line} (h : Reports events lines) :
    ∀ event ∈ events, event.call? = none := by
  intro event hevent
  have := h.isReport event hevent
  cases event <;> first | rfl | cases this

namespace Request

theorem isReport_of_mem_detours {request : Request} {detour : Option Refusal} {event : Event}
    (h : event ∈ request.detours detour) : event.isReport = true := by
  obtain ⟨source, target, cause, rfl⟩ := exists_of_mem_detours h
  rfl

theorem failures_detours (request : Request) (detour : Option Refusal) :
    (request.detours detour).filterMap Event.failure? = [] := by
  refine List.filterMap_eq_nil_iff.2 fun event h => ?_
  obtain ⟨source, target, cause, rfl⟩ := exists_of_mem_detours h
  rfl

theorem reports_failed (request : Request) (detour : Option Refusal) (e : FileError)
    (pos : Position) :
    Reports (request.detours detour ++ [.commandFailed request.command (.file e) pos])
      [⟨e.reported request.command, .errors, pos⟩] where
  isReport event hevent := by
    rcases List.mem_append.1 hevent with hevent | hevent
    · exact isReport_of_mem_detours hevent
    · rw [List.mem_singleton.1 hevent]
      rfl
  failures := by
    rw [List.filterMap_append, failures_detours, List.nil_append]
    simp [Event.failure?, CommandError.report_file]

theorem reports_granted (request : Request) (detour : Option Refusal) (reply : request.Reply)
    (pos : Position) :
    Reports (request.detours detour ++ request.notes reply)
      ((request.confirmation reply).map (⟨·, .output, pos⟩)) where
  isReport event hevent := by
    rcases List.mem_append.1 hevent with hevent | hevent
    · exact isReport_of_mem_detours hevent
    · obtain ⟨bytes, rfl⟩ := exists_of_mem_notes hevent
      rfl
  failures := by
    have hnotes : (request.notes reply).filterMap Event.failure? = [] := by
      refine List.filterMap_eq_nil_iff.2 fun event h => ?_
      obtain ⟨bytes, rfl⟩ := exists_of_mem_notes h
      rfl
    rw [List.filterMap_append, failures_detours, hnotes]
    simp [List.filter_map]

end Request

namespace Action

theorem ofCall?_of_length {command : Command} {args : List Value}
    (h : args.length = command.arity) : ∃ action, ofCall? command args = some action := by
  rw [← Option.ne_none_iff_exists', Ne, ofCall?_eq_none_iff]
  exact fun hne => hne h

theorem ofCall?_eq_ask {command : Command} {args : List Value} {request : Request}
    (h : ofCall? command args = some (ask request)) :
    request.command = command ∧ args.map Value.toText = request.texts := by
  rcases args with _ | ⟨first, _ | ⟨second, _ | ⟨third, more⟩⟩⟩ <;> cases command <;>
    simp only [ofCall?, Option.some.injEq, ask.injEq, reduceCtorEq] at h <;>
    (subst h; exact ⟨rfl, rfl⟩)

theorem ofCall?_eq_wait {command : Command} {args : List Value} {duration : Value}
    (h : ofCall? command args = some (wait duration)) : command = .wait ∧ args = [duration] := by
  rcases args with _ | ⟨first, _ | ⟨second, _ | ⟨third, more⟩⟩⟩ <;> cases command <;>
    simp only [ofCall?, Option.some.injEq, wait.injEq, reduceCtorEq] at h
  subst h
  exact ⟨rfl, rfl⟩

end Action

theorem Terminal.lines_foldl_push (lines : List Line) (terminal : Terminal) :
    (lines.foldl push terminal).lines = terminal.lines ++ lines.toArray := by
  induction lines generalizing terminal with
  | nil => simp
  | cons line lines ih => simp [ih, push]

def Machine.advance {σ : Type} (m : Machine σ) (events : List Event) (lines : List Line)
    (files : σ) : Machine σ :=
  { m with
    trace := m.trace ++ events.toArray
    terminal := lines.foldl Terminal.push m.terminal
    files := files }

namespace Run

variable {σ α β : Type}

/-! ## Single steps -/

theorem result_bind (x : Run σ α) (f : α → Run σ β) (m : Machine σ) : result (x >>= f) m =
    match result x m with
    | (.ok a, m') => result (f a) m'
    | (.error halt, m') => (.error halt, m') := by
  rcases h : result x m with ⟨halt | a, m'⟩
  · exact result_bind_error h f
  · exact result_bind_ok h f

theorem result_record (event : Event) (m : Machine σ) :
    result (record event) m = (.ok (), { m with trace := m.trace.push event }) := rfl

theorem result_print (text : String) (pos : Position) (m : Machine σ) :
    result (print text pos) m = (.ok (), { m with terminal := m.terminal.print text pos }) := rfl

theorem result_printError (text : String) (pos : Position) (m : Machine σ) :
    result (printError text pos) m =
      (.ok (), { m with terminal := m.terminal.error text pos }) := rfl

theorem result_ask (system : FileSystem σ) (request : Request) (m : Machine σ) :
    result (ask system request) m = (.ok (system.answer request m.files).1,
      { m with files := (system.answer request m.files).2 }) := rfl

theorem result_records (events : List Event) (m : Machine σ) :
    result (events.forM record) m = (.ok (), { m with trace := m.trace ++ events.toArray }) := by
  induction events generalizing m with
  | nil => simp [List.forM, result_pure]
  | cons event events ih =>
      show result (record event >>= fun _ => events.forM record) m = _
      rw [result_bind_ok (result_record event m), ih]
      simp

theorem result_prints (texts : List String) (pos : Position) (m : Machine σ) :
    result (texts.forM (print · pos)) m =
      (.ok (), { m with
        terminal := (texts.map (⟨·, .output, pos⟩)).foldl Terminal.push m.terminal }) := by
  induction texts generalizing m with
  | nil => simp [List.forM, result_pure]
  | cons text texts ih =>
      show result (print text pos >>= fun _ => texts.forM (print · pos)) m = _
      rw [result_bind_ok (result_print text pos m), ih]
      rfl

theorem result_noteWait (limits : Limits) (requested : Nat) (pos : Position) (m : Machine σ)
    (line : String) :
    ∃ events : List Event, Reports events [⟨line, .output, pos⟩] ∧
      result (noteWait limits requested pos) m =
        (.ok (), { m with trace := m.trace ++ events.toArray }) := by
  have hquiet : result (pure () : Run σ Unit) m =
      (.ok (), { m with trace := m.trace ++ ([] : List Event).toArray }) := by
    simp [result_pure]
  rw [noteWait]
  cases limits.maxWait with
  | none => exact ⟨[], ⟨by simp, by simp⟩, hquiet⟩
  | some cap =>
      by_cases h : cap < requested
      · refine ⟨[.waitCapped requested cap pos],
          ⟨by simp [Event.isReport], by simp [Event.failure?]⟩, ?_⟩
        simp only [if_pos h, result_record]
        simp
      · simp only [if_neg h]
        exact ⟨[], ⟨by simp, by simp⟩, hquiet⟩

/-! ## Calls -/

theorem result_call_ask (s : Setting σ) {command : Command} {args : List Value} {request : Request}
    (h : Action.ofCall? command args = some (.ask request)) (pos : Position) (m : Machine σ) :
    ∃ events : List Event,
      Reports events ((Exchange.mk request (s.files.answer request m.files).1).lines pos) ∧
      result (call s command args pos) m =
        (.ok (Exchange.mk request (s.files.answer request m.files).1).value,
          m.advance (.dispatched command args pos :: events)
            ((Exchange.mk request (s.files.answer request m.files).1).lines pos)
            (s.files.answer request m.files).2) := by
  obtain ⟨rfl, -⟩ := Action.ofCall?_eq_ask h
  rw [call, dispatch, h]
  simp only [perform, result_bind, result_record, result_ask, result_records, Exchange.lines,
    Exchange.value]
  rcases hresult : (s.files.answer request m.files).1.result with e | reply
  · refine ⟨_, request.reports_failed (s.files.answer request m.files).1.detour e pos, ?_⟩
    simp only [result_pure, result_bind, result_record, result_printError,
      CommandError.report_file]
    simp [Machine.advance, Terminal.error]
  · refine ⟨_, request.reports_granted (s.files.answer request m.files).1.detour reply pos, ?_⟩
    simp only [result_pure, result_bind, result_records, result_prints]
    simp [Machine.advance]

theorem result_call_wait (s : Setting σ) {command : Command} {args : List Value} {duration : Value}
    (h : Action.ofCall? command args = some (.wait duration)) (pos : Position) (m : Machine σ) :
    ∃ events : List Event, Reports events [duration.waitLine pos] ∧
      result (call s command args pos) m =
        (.ok none, m.advance (.dispatched command args pos :: events) [duration.waitLine pos]
          m.files) := by
  obtain ⟨rfl, -⟩ := Action.ofCall?_eq_wait h
  rw [call, dispatch, h]
  simp only [perform, result_bind, result_record, Value.milliseconds_eq, Value.waitLine]
  rcases hduration : duration.milliseconds? with _ | requested
  · refine ⟨[.commandFailed .wait (.invalidDuration duration) pos],
      ⟨by simp [Event.isReport], by simp [Event.failure?, CommandError.report_invalidDuration]⟩, ?_⟩
    simp only [result_pure, result_bind, result_record, result_printError,
      CommandError.report_invalidDuration]
    simp [Machine.advance, Terminal.error, Command.isQuery, ← Array.toList_inj]
  · obtain ⟨events, hevents, hresult⟩ := result_noteWait s.limits requested pos
      { m with
        trace := m.trace.push (.dispatched .wait args pos)
        terminal := m.terminal.print s!"Waiting {requested} ms..." pos }
      s!"Waiting {requested} ms..."
    refine ⟨events, hevents, ?_⟩
    simp only [result_pure, result_bind, result_print, hresult]
    simp [Machine.advance, Terminal.print]

theorem result_call_none (s : Setting σ) {command : Command} {args : List Value}
    (h : args.length ≠ command.arity) (pos : Position) (m : Machine σ) :
    result (call s command args pos) m =
      (.error (.fault (.argumentCount command args.length pos)), m) := by
  rw [call, dispatch, Action.ofCall?_eq_none_iff.2 h]
  rfl

/-- What holds however a call goes holds of the call. -/
theorem result_call_cases (s : Setting σ) (command : Command) (args : List Value) (pos : Position)
    (m : Machine σ) {motive : Except Halt (Option Value) × Machine σ → Prop}
    (ask : ∀ request events, request.command = command → args.map Value.toText = request.texts →
      Reports events ((Exchange.mk request (s.files.answer request m.files).1).lines pos) →
      motive (.ok (Exchange.mk request (s.files.answer request m.files).1).value,
        m.advance (.dispatched command args pos :: events)
          ((Exchange.mk request (s.files.answer request m.files).1).lines pos)
          (s.files.answer request m.files).2))
    (wait : ∀ duration events, command = .wait → args = [duration] →
      Reports events [duration.waitLine pos] →
      motive (.ok none, m.advance (.dispatched command args pos :: events)
        [duration.waitLine pos] m.files))
    (refuse : args.length ≠ command.arity →
      motive (.error (.fault (.argumentCount command args.length pos)), m)) :
    motive (result (call s command args pos) m) := by
  by_cases hargs : args.length = command.arity
  · obtain ⟨action, haction⟩ := Action.ofCall?_of_length hargs
    cases action with
    | ask request =>
        obtain ⟨hcommand, htexts⟩ := Action.ofCall?_eq_ask haction
        obtain ⟨events, hreports, hresult⟩ := result_call_ask s haction pos m
        rw [hresult]
        exact ask request events hcommand htexts hreports
    | wait duration =>
        obtain ⟨hcommand, hduration⟩ := Action.ofCall?_eq_wait haction
        obtain ⟨events, hreports, hresult⟩ := result_call_wait s haction pos m
        rw [hresult]
        exact wait duration events hcommand hduration hreports
  · rw [result_call_none s hargs]
    exact refuse hargs

end Run

end FileChores
