import FileChores.FileSystem.Scripted
import FileChores.Proofs.Run.Calling
import FileChores.Proofs.Run.Recorded

/-!
# The account of a run

A file system can log what it was asked with what it answered. The calls that a run dispatches
account for that log and for every printed line: in their order, each call adds its own exchange,
unless it is a wait, and its own lines. A failure among the answers shows in the lines alone.
-/

namespace FileChores

variable {σ α β : Type}

/-- The same file system, with the exchanges so far beside its state. -/
def FileSystem.logged (system : FileSystem σ) : FileSystem (σ × List Exchange) where
  answer request state :=
    ((system.answer request state.1).1, (system.answer request state.1).2,
      state.2 ++ [⟨request, (system.answer request state.1).1⟩])

/-- What is to be read of a request and its answer, and on which stream: what was done and what
there is, or what went wrong. Only a missing path is told without the command that wanted it. -/
inductive Exchange.Tells : Exchange → Stream → List String → Prop
  | moved (source target : String) (detour : Option Refusal) :
      Tells ⟨.move source target, ⟨.ok (), detour⟩⟩ .output
        ["Moved: " ++ source ++ " -> " ++ target]
  | copied (source target : String) (bytes : Nat) (detour : Option Refusal) :
      Tells ⟨.copy source target, ⟨.ok bytes, detour⟩⟩ .output
        ["Copied: " ++ source ++ " -> " ++ target]
  | renamed (source target : String) (detour : Option Refusal) :
      Tells ⟨.rename source target, ⟨.ok (), detour⟩⟩ .output
        ["Renamed: " ++ source ++ " -> " ++ target]
  | deleted (path : String) (detour : Option Refusal) :
      Tells ⟨.delete path, ⟨.ok (), detour⟩⟩ .output ["Deleted: " ++ path]
  | listed (path : String) (names : List String) (detour : Option Refusal) :
      Tells ⟨.list path, ⟨.ok names, detour⟩⟩ .output
        (("Files in " ++ path ++ ":") :: names.map fun name => "  " ++ name)
  | counted (path : String) (entries : Nat) (detour : Option Refusal) :
      Tells ⟨.count path, ⟨.ok entries, detour⟩⟩ .output
        ["Files in " ++ path ++ ": " ++ toString entries]
  | measured (path : String) (bytes : Nat) (detour : Option Refusal) :
      Tells ⟨.space path, ⟨.ok bytes, detour⟩⟩ .output
        ["Space used by " ++ path ++ ": " ++ toString bytes ++ " bytes"]
  | notFound (request : Request) (path : String) (detour : Option Refusal) :
      Tells ⟨request, ⟨.error (.notFound path), detour⟩⟩ .errors ["File not found: " ++ path]
  | directoryNotFound (request : Request) (path : String) (detour : Option Refusal) :
      Tells ⟨request, ⟨.error (.directoryNotFound path), detour⟩⟩ .errors
        ["Directory not found: " ++ path]
  | refused (request : Request) (path : String) (cause : Refusal) (detour : Option Refusal) :
      Tells ⟨request, ⟨.error (.refused path cause), detour⟩⟩ .errors
        ["Error running " ++ request.command.name ++ ": " ++ path ++ ": " ++ cause.message]

theorem Exchange.exists_tells (exchange : Exchange) (pos : Position) :
    ∃ stream texts, exchange.Tells stream texts ∧
      exchange.lines pos = texts.map (⟨·, stream, pos⟩) := by
  obtain ⟨request, result, detour⟩ := exchange
  cases result with
  | error e =>
      cases e with
      | notFound path => exact ⟨_, _, .notFound request path detour, rfl⟩
      | directoryNotFound path => exact ⟨_, _, .directoryNotFound request path detour, rfl⟩
      | refused path cause =>
          have htext : FileError.reported request.command (.refused path cause) =
              "Error running " ++ request.command.name ++ ": " ++ path ++ ": " ++
                cause.message := by
            show "Error running " ++ request.command.name ++ ": " ++
              (path ++ ": " ++ cause.message) = _
            rw [← String.append_assoc, ← String.append_assoc]
          refine ⟨_, _, .refused request path cause detour, ?_⟩
          rw [← htext]
          rfl
  | ok reply =>
      cases request with
      | move source target => exact ⟨_, _, .moved source target detour, rfl⟩
      | copy source target => exact ⟨_, _, .copied source target reply detour, rfl⟩
      | rename source target => exact ⟨_, _, .renamed source target detour, rfl⟩
      | delete path => exact ⟨_, _, .deleted path detour, rfl⟩
      | list path => exact ⟨_, _, .listed path reply detour, rfl⟩
      | count path => exact ⟨_, _, .counted path reply detour, rfl⟩
      | space path => exact ⟨_, _, .measured path reply detour, rfl⟩

/-- What is to be read of a wait: whole milliseconds, as many as a 64-bit word can tell, or that
there is no such duration. -/
inductive Value.TellsWait : Value → Stream → String → Prop
  | waits {x : Float} : x.isFinite = true → 0 ≤ x →
      TellsWait (.number x) .output
        ("Waiting " ++ toString (min (Number.whole x) (2 ^ 64 - 1)) ++ " ms...")
  | outOfRange {x : Float} : ¬ (x.isFinite = true ∧ 0 ≤ x) →
      TellsWait (.number x) .errors ("Error running Wait: invalid duration " ++ Number.text x ++
        ": expected a non-negative number of milliseconds")
  | text (content : String) :
      TellsWait (.text content) .errors ("Error running Wait: invalid duration " ++
        ("\"" ++ content ++ "\"") ++ ": expected a non-negative number of milliseconds")

theorem Value.exists_tellsWait (duration : Value) (pos : Position) :
    ∃ stream text, duration.TellsWait stream text ∧
      duration.waitLine pos = ⟨text, stream, pos⟩ := by
  have hrefused (written : String) :
      "Error running " ++ "Wait" ++ ": " ++ ("invalid duration " ++ written ++
          ": expected a non-negative number of milliseconds") =
        "Error running Wait: invalid duration " ++ written ++
          ": expected a non-negative number of milliseconds" := by
    rw [← String.append_assoc, ← String.append_assoc]
    rfl
  cases duration with
  | text content =>
      refine ⟨_, _, .text content, ?_⟩
      rw [← hrefused]
      rfl
  | number x =>
      rw [waitLine, milliseconds?]
      by_cases h : x.isFinite = true ∧ 0 ≤ x
      · refine ⟨_, _, .waits h.1 h.2, ?_⟩
        rw [if_pos (by simpa using h)]
        rfl
      · refine ⟨_, _, .outOfRange h, ?_⟩
        rw [if_neg (by simpa using h), ← hrefused]
        rfl

inductive Deed
  | asked (exchange : Exchange) (args : List Value) (pos : Position) :
      args.map Value.toText = exchange.request.texts → Deed
  | waited (duration : Value) (pos : Position)

namespace Deed

def command : Deed → Command
  | asked exchange _ _ _ => exchange.request.command
  | waited _ _ => .wait

def args : Deed → List Value
  | asked _ args _ _ => args
  | waited duration _ => [duration]

def pos : Deed → Position
  | asked _ _ pos _ | waited _ pos => pos

def call (deed : Deed) : Command × List Value × Position :=
  (deed.command, deed.args, deed.pos)

def exchange? : Deed → Option Exchange
  | asked exchange _ _ _ => some exchange
  | waited _ _ => none

def lines : Deed → List Line
  | asked exchange _ pos _ => exchange.lines pos
  | waited duration pos => [duration.waitLine pos]

/-- What is to be read of a deed stands on the lines, each at the place of the call. -/
inductive Prints : Deed → List Line → Prop
  | asked {exchange : Exchange} {stream : Stream} {texts : List String} (args : List Value)
      (pos : Position) (h : args.map Value.toText = exchange.request.texts) :
      exchange.Tells stream texts →
      Prints (.asked exchange args pos h) (texts.map (⟨·, stream, pos⟩))
  | waited {duration : Value} {stream : Stream} {text : String} (pos : Position) :
      duration.TellsWait stream text → Prints (.waited duration pos) [⟨text, stream, pos⟩]

theorem prints_lines (deed : Deed) : deed.Prints deed.lines := by
  cases deed with
  | asked exchange args pos h =>
      obtain ⟨stream, texts, htells, hlines⟩ := exchange.exists_tells pos
      rw [lines, hlines]
      exact .asked args pos h htells
  | waited duration pos =>
      obtain ⟨stream, text, htells, hline⟩ := duration.exists_tellsWait pos
      rw [lines, hline]
      exact .waited pos htells

theorem pos_of_mem_lines {deed : Deed} {line : Line} (h : line ∈ deed.lines) :
    line.pos = deed.pos := by
  cases deed with
  | asked exchange args pos texts =>
      rw [lines, Exchange.lines] at h
      cases hresult : exchange.answer.result with
      | error e =>
          rw [hresult] at h
          rw [List.mem_singleton.1 h]
          rfl
      | ok reply =>
          rw [hresult] at h
          obtain ⟨text, -, rfl⟩ := List.mem_map.1 h
          rfl
  | waited duration pos =>
      rw [List.mem_singleton.1 h, Value.waitLine, Deed.pos]
      cases duration.milliseconds? <;> rfl

end Deed

namespace Machine

structure Adds (deeds : List Deed) (m m' : Machine (σ × List Exchange)) : Prop where
  dispatched : m'.trace.toList.filterMap Event.call? =
    m.trace.toList.filterMap Event.call? ++ deeds.map Deed.call
  asked : m'.files.2 = m.files.2 ++ deeds.filterMap Deed.exchange?
  printed : m'.terminal.lines.toList = m.terminal.lines.toList ++ deeds.flatMap Deed.lines

variable {m m' m'' : Machine (σ × List Exchange)} {deeds more : List Deed}

theorem Adds.refl (m : Machine (σ × List Exchange)) : Adds [] m m where
  dispatched := by simp
  asked := by simp
  printed := by simp

theorem Adds.trans (h : Adds deeds m m') (h' : Adds more m' m'') : Adds (deeds ++ more) m m'' where
  dispatched := by rw [h'.dispatched, h.dispatched, List.map_append, List.append_assoc]
  asked := by rw [h'.asked, h.asked, List.filterMap_append, List.append_assoc]
  printed := by rw [h'.printed, h.printed, List.flatMap_append, List.append_assoc]

theorem adds_of_event {event : Event} (hevent : event.call? = none)
    (htrace : m'.trace = m.trace.push event) (hterminal : m'.terminal = m.terminal)
    (hfiles : m'.files = m.files) : Adds [] m m' where
  dispatched := by simp [htrace, hevent]
  asked := by simp [hfiles]
  printed := by simp [hterminal]

theorem adds_advance (deed : Deed) {events : List Event}
    (hevents : ∀ event ∈ events, event.call? = none) (files : σ) :
    Adds [deed] m (m.advance (.dispatched deed.command deed.args deed.pos :: events) deed.lines
      (files, m.files.2 ++ deed.exchange?.toList)) where
  dispatched := by
    have hnone : events.filterMap Event.call? = [] := List.filterMap_eq_nil_iff.2 hevents
    simp [advance, Deed.call, Event.call?, hnone]
  asked := by cases h : deed.exchange? <;> simp [advance, h]
  printed := by simp [advance, Terminal.lines_foldl_push]

end Machine

namespace Run

def Accounted (site : Command → Position → Prop) (x : Run (σ × List Exchange) α) : Prop :=
  ∀ m : Machine (σ × List Exchange), ∃ deeds : List Deed,
    (∀ deed ∈ deeds, site deed.command deed.pos) ∧ m.Adds deeds (result x m).2

variable {site : Command → Position → Prop}

theorem Accounted.of_nothing {x : Run (σ × List Exchange) α}
    (h : ∀ m, Machine.Adds [] m (result x m).2) : Accounted site x :=
  fun m => ⟨[], by simp, h m⟩

theorem Accounted.bind {x : Run (σ × List Exchange) α} {f : α → Run (σ × List Exchange) β}
    (hx : Accounted site x) (hf : ∀ a, Accounted site (f a)) : Accounted site (x >>= f) := by
  intro m
  show Appends (fun deeds m m' => (∀ deed ∈ deeds, site deed.command deed.pos) ∧
    Machine.Adds deeds m m') _ m
  refine .bind ?_ (hx m) fun a m' _ => hf a m'
  rintro deeds more m m' m'' ⟨hdeeds, hadds⟩ ⟨hmore, hadds'⟩
  refine ⟨fun deed hdeed => ?_, hadds.trans hadds'⟩
  exact (List.mem_append.1 hdeed).elim (hdeeds deed) (hmore deed)

variable (system : FileSystem σ) (limits : Limits) (patience : Nat)

/-- A call is one deed, or none if it faults. -/
theorem accounted_call {command : Command} (args : List Value) {pos : Position}
    (h : site command pos) :
    Accounted site (call ⟨system.logged, limits, patience⟩ command args pos) := by
  intro m
  apply result_call_cases (motive := fun ending => ∃ deeds : List Deed,
    (∀ deed ∈ deeds, site deed.command deed.pos) ∧ m.Adds deeds ending.2)
  · rintro request events rfl htexts hreports
    let deed := Deed.asked ⟨request, (system.answer request m.files.1).1⟩ args pos htexts
    exact ⟨[deed], List.forall_mem_singleton.2 h,
      Machine.adds_advance deed hreports.call?_eq_none _⟩
  · rintro duration events rfl rfl hreports
    have hadds := Machine.adds_advance (m := m) (Deed.waited duration pos)
      hreports.call?_eq_none m.files.1
    rw [Deed.exchange?, Option.toList_none, List.append_nil] at hadds
    exact ⟨[.waited duration pos], List.forall_mem_singleton.2 h, hadds⟩
  · exact fun _ => ⟨[], by simp, .refl m⟩

theorem accounted_lockstep :
    Lockstep id (fun x _ => Accounted site x) (⟨system.logged, limits, patience⟩ : Setting _)
      ⟨system.logged, limits, patience⟩ site where
  pure _ := .of_nothing .refl
  bind := Accounted.bind
  fault _ := .of_nothing .refl
  compared _ _ _ _ := .of_nothing fun _ => Machine.adds_of_event rfl rfl rfl rfl
  lookup _ := .of_nothing .refl
  call _ args _ h := accounted_call system limits patience args h
  assign _ _ := .of_nothing fun _ => Machine.adds_of_event rfl rfl rfl rfl
  enter _ := .of_nothing fun _ => Machine.adds_of_event rfl rfl rfl rfl
  maxIterations := rfl
  patience := rfl
  giveUp := .of_nothing .refl
  loopLimit _ _ := .of_nothing .refl
  loopLimitReached _ _ := .of_nothing fun _ => Machine.adds_of_event rfl rfl rfl rfl
  loopFinished _ _ := .of_nothing fun _ => Machine.adds_of_event rfl rfl rfl rfl

end Run

open Run

theorem Program.conclude_calls (ending : Except Halt Unit × Machine σ) :
    (conclude ending).2.trace.toList.filterMap Event.call? =
      ending.2.trace.toList.filterMap Event.call? := by
  obtain ⟨(fault | _) | _, m⟩ := ending <;> simp [conclude, Event.call?]

/-- What a run dispatches, asks and prints is the account of deeds at places where the program calls
a command. -/
theorem Program.runWith_deeds (system : FileSystem σ) (limits : Limits) (patience : Nat)
    (program : Program) (files : σ) :
    ∃ deeds : List Deed,
      (program.runWith ⟨system.logged, limits, patience⟩ (files, [])).2.trace.toList.filterMap
        Event.call? = deeds.map Deed.call ∧
      (program.runWith ⟨system.logged, limits, patience⟩ (files, [])).2.files.2 =
        deeds.filterMap Deed.exchange? ∧
      (program.runWith ⟨system.logged, limits, patience⟩ (files, [])).2.terminal.lines.toList =
        deeds.flatMap Deed.lines ∧
      ∀ deed ∈ deeds, ∃ args, Calls program.body deed.command args deed.pos := by
  have hsite : CallsAt (fun command pos => ∃ args, Calls program.body command args pos)
      program.body := fun _ args _ h => ⟨args, h⟩
  obtain ⟨deeds, hdeeds, hadds⟩ := (accounted_lockstep system limits patience).executeBlock
    program.body hsite (program.start (files, []))
  rw [runWith_eq]
  -- Before its first statement a run has dispatched, asked and printed nothing.
  refine ⟨deeds, ?_, ?_, ?_, hdeeds⟩
  · rw [conclude_calls]
    exact hadds.dispatched
  · rw [conclude_files]
    exact hadds.asked
  · rw [conclude_terminal]
    exact hadds.printed

/-! ## Failures -/

/-- The same file system, except that it grants what it should turn down, with nothing. -/
def FileSystem.forgiving (system : FileSystem σ) : FileSystem σ where
  answer request files :=
    match (system.answer request files).1.result with
    | .ok _ => system.answer request files
    | .error _ => ((Response.grant 0 []).answer request, (system.answer request files).2)

namespace FileSystem

variable {system : FileSystem σ} {request : Request} {files : σ}

theorem forgiving_of_ok {reply : request.Reply}
    (h : (system.answer request files).1.result = .ok reply) :
    system.forgiving.answer request files = system.answer request files := by
  simp only [forgiving, h]

theorem forgiving_of_error {e : FileError}
    (h : (system.answer request files).1.result = .error e) :
    system.forgiving.answer request files =
      ((Response.grant 0 []).answer request, (system.answer request files).2) := by
  simp only [forgiving, h]

theorem forgiving_files (system : FileSystem σ) (request : Request) (files : σ) :
    (system.forgiving.answer request files).2 = (system.answer request files).2 := by
  cases h : (system.answer request files).1.result with
  | ok reply => rw [forgiving_of_ok h]
  | error e => rw [forgiving_of_error h]

theorem forgiving_value (system : FileSystem σ) (request : Request) (files : σ) :
    (Exchange.mk request (system.forgiving.answer request files).1).value =
      (Exchange.mk request (system.answer request files).1).value := by
  cases h : (system.answer request files).1.result with
  | ok reply => rw [forgiving_of_ok h]
  | error e =>
      rw [forgiving_of_error h]
      simp only [Exchange.value, h]
      cases request <;> rfl

end FileSystem

/-- The same machine but for its lines and its trace. -/
structure Machine.SameState (m m' : Machine σ) : Prop where
  environment : m.environment = m'.environment
  pos : m.pos = m'.pos
  files : m.files = m'.files

namespace Run

variable (system : FileSystem σ) (limits : Limits) (patience : Nat)

theorem sameState_call (command : Command) (args : List Value) (pos : Position) :
    Related id Machine.SameState (call ⟨system, limits, patience⟩ command args pos)
      (call ⟨system.forgiving, limits, patience⟩ command args pos) := by
  intro m m' hm
  by_cases hargs : args.length = command.arity
  · obtain ⟨action, haction⟩ := Action.ofCall?_of_length hargs
    cases action with
    | ask request =>
        obtain ⟨events, -, hresult⟩ := result_call_ask ⟨system, limits, patience⟩ haction pos m
        obtain ⟨events', -, hresult'⟩ :=
          result_call_ask ⟨system.forgiving, limits, patience⟩ haction pos m'
        rw [hresult, hresult', ← hm.files, FileSystem.forgiving_value]
        exact ⟨rfl, hm.environment, hm.pos, (system.forgiving_files request m.files).symm⟩
    | wait duration =>
        obtain ⟨events, -, hresult⟩ := result_call_wait ⟨system, limits, patience⟩ haction pos m
        obtain ⟨events', -, hresult'⟩ :=
          result_call_wait ⟨system.forgiving, limits, patience⟩ haction pos m'
        rw [hresult, hresult']
        exact ⟨rfl, hm.environment, hm.pos, hm.files⟩
  · rw [result_call_none _ hargs, result_call_none _ hargs]
    exact ⟨rfl, hm⟩

theorem sameState_steps : Machine.StepsAlike id (Machine.SameState (σ := σ)) where
  environment h := h.environment.symm
  insert h name value := ⟨congrArg (·.insert name value) h.environment, h.pos, h.files⟩
  stand h _ := ⟨h.environment, rfl, h.files⟩
  tell h _ := ⟨h.environment, h.pos, h.files⟩

end Run

namespace Program

variable (system : FileSystem σ) (limits : Limits) (patience : Nat) (program : Program) (files : σ)

theorem runWith_forgiving :
    (program.runWith ⟨system, limits, patience⟩ files).1 =
        (program.runWith ⟨system.forgiving, limits, patience⟩ files).1 ∧
      (program.runWith ⟨system, limits, patience⟩ files).2.SameState
        (program.runWith ⟨system.forgiving, limits, patience⟩ files).2 := by
  have c : Lockstep id (Related id Machine.SameState) ⟨system, limits, patience⟩
      ⟨system.forgiving, limits, patience⟩ fun _ _ => True :=
    sameState_steps.lockstep
      (fun command args pos _ => sameState_call system limits patience command args pos) rfl rfl
  obtain ⟨houtcome, hsame⟩ := program.runFrom_alike_id sameState_steps c
    (m := Machine.fresh files) ⟨rfl, rfl, rfl⟩
  exact ⟨houtcome.symm, hsame⟩

/-- The calls that a run dispatches account for what it asks of the file system and for what it
prints, each at a place where the program calls the command. Keeping the log changes nothing, and a
failure among the answers changes nothing but the lines and the trace. -/
theorem runWith_accounted :
    (∃ deeds : List Deed,
      (program.runWith ⟨system.logged, limits, patience⟩ (files, [])).2.trace.toList.filterMap
        Event.call? = deeds.map Deed.call ∧
      (program.runWith ⟨system.logged, limits, patience⟩ (files, [])).2.files.2 =
        deeds.filterMap Deed.exchange? ∧
      (program.runWith ⟨system.logged, limits, patience⟩ (files, [])).2.terminal.lines.toList =
        deeds.flatMap Deed.lines ∧
      ∀ deed ∈ deeds, (∃ args, Calls program.body deed.command args deed.pos) ∧
        deed.Prints deed.lines ∧ ∀ line ∈ deed.lines, line.pos = deed.pos) ∧
    program.runWith ⟨system, limits, patience⟩ files =
      ((program.runWith ⟨system.logged, limits, patience⟩ (files, [])).1,
        (program.runWith ⟨system.logged, limits, patience⟩ (files, [])).2.seen Prod.fst) ∧
    (program.runWith ⟨system, limits, patience⟩ files).1 =
      (program.runWith ⟨system.forgiving, limits, patience⟩ files).1 ∧
    (program.runWith ⟨system, limits, patience⟩ files).2.SameState
      (program.runWith ⟨system.forgiving, limits, patience⟩ files).2 := by
  have hlogged : system.logged.LooksLike Prod.fst system := fun _ _ => rfl
  refine ⟨?_, program.runWith_seen hlogged limits patience (files, []),
    runWith_forgiving system limits patience program files⟩
  obtain ⟨deeds, hdispatched, hasked, hprinted, hdeeds⟩ :=
    runWith_deeds system limits patience program files
  exact ⟨deeds, hdispatched, hasked, hprinted, fun deed hdeed => ⟨hdeeds deed hdeed,
    deed.prints_lines, fun line hline => Deed.pos_of_mem_lines hline⟩⟩

end Program

end FileChores
