import FileChores.Proofs.Run.Calling
import FileChores.Proofs.Run.Recorded

/-!
# What the events of a run tell

The events that a step adds to the trace tell what it does to the machine: the assignments among
them lead from the old bindings to the new ones, the statements among them to the place, the
failures to the lines on the stream of errors, and the dispatches to the requests that were asked.
-/

namespace FileChores

def Environment.texts (env : Environment) : Std.ExtTreeMap String String :=
  env.bindings.map fun _ value => value.toText

theorem Environment.texts_empty : empty.texts = ∅ := by
  ext name text
  simp [texts, empty]

theorem Environment.texts_insert (env : Environment) (name : String) (value : Value) :
    (env.insert name value).texts = env.texts.insert name value.toText := by
  ext other text
  simp only [texts, insert, Std.ExtTreeMap.getElem?_map, Std.ExtTreeMap.getElem?_insert]
  split <;> rfl

namespace Event

def isBoundary : Event → Bool
  | parsed _ | running _ | finished _ | aborted _ => true
  | _ => false

/-- Texts by name, after the event. -/
def replay (texts : Std.ExtTreeMap String String) : Event → Std.ExtTreeMap String String
  | assigned name value => texts.insert name value.toText
  | _ => texts

def start? : Event → Option Position
  | statement pos => some pos
  | _ => none

/-- The command that was to ask the file system, and the texts of its arguments. A wait asks
nothing. -/
def asked? : Event → Option (Command × List String)
  | dispatched .wait _ _ => none
  | dispatched command args _ => some (command, args.map Value.toText)
  | _ => none

theorem asked?_dispatched {command : Command} (h : command ≠ .wait) (args : List Value)
    (pos : Position) :
    (dispatched command args pos).asked? = some (command, args.map Value.toText) := by
  cases command <;> first | rfl | exact absurd rfl h

theorem of_isReport {event : Event} (h : event.isReport = true) :
    event.isBoundary = false ∧ (∀ texts, event.replay texts = texts) ∧ event.start? = none ∧
      event.asked? = none := by
  cases event <;> first | exact ⟨rfl, fun _ => rfl, rfl, rfl⟩ | cases h

end Event

def Request.call (request : Request) : Command × List String :=
  (request.command, request.texts)

theorem Request.command_ne_wait (request : Request) : request.command ≠ .wait := by
  cases request <;> exact Command.noConfusion

namespace Machine

variable {σ : Type}

def complaints (m : Machine σ) : List Line :=
  m.terminal.lines.toList.filter (·.stream = .errors)

/-- The events tell what lies between the two machines. -/
structure Tells (events : List Event) (m m' : Machine (σ × List Request)) : Prop where
  trace : m'.trace.toList = m.trace.toList ++ events
  inner : ∀ event ∈ events, event.isBoundary = false
  texts : m'.environment.texts = events.foldl Event.replay m.environment.texts
  pos : m'.pos = (events.filterMap Event.start?).getLast?.getD m.pos
  asked : m'.files.2.map Request.call = m.files.2.map Request.call ++ events.filterMap Event.asked?
  complaints : m'.complaints = m.complaints ++ events.filterMap Event.failure?

variable {m m' m'' : Machine (σ × List Request)} {events more : List Event}

theorem Tells.refl (m : Machine (σ × List Request)) : Tells [] m m where
  trace := by simp
  inner := by simp
  texts := rfl
  pos := rfl
  asked := by simp
  complaints := by simp

theorem Tells.trans (h : Tells events m m') (h' : Tells more m' m'') :
    Tells (events ++ more) m m'' where
  trace := by rw [h'.trace, h.trace, List.append_assoc]
  inner event hevent := (List.mem_append.1 hevent).elim (h.inner event) (h'.inner event)
  texts := by rw [h'.texts, h.texts, List.foldl_append]
  pos := by
    rw [h'.pos, h.pos, List.filterMap_append, List.getLast?_append]
    cases (more.filterMap Event.start?).getLast? <;> rfl
  asked := by rw [h'.asked, h.asked, List.filterMap_append, List.append_assoc]
  complaints := by rw [h'.complaints, h.complaints, List.filterMap_append, List.append_assoc]

theorem tells_event {event : Event} (m : Machine (σ × List Request))
    (hinner : event.isBoundary = false) (htexts : ∀ texts, event.replay texts = texts)
    (hpos : event.start? = none) (hasked : event.asked? = none) (hfailure : event.failure? = none) :
    Tells [event] m { m with trace := m.trace.push event } where
  trace := by simp
  inner := by simpa using hinner
  texts := by simp [htexts]
  pos := by simp [hpos]
  asked := by simp [hasked]
  complaints := by simp [hfailure, complaints]

theorem foldl_replay_reports (h : ∀ event ∈ events, event.isReport = true)
    (texts : Std.ExtTreeMap String String) : events.foldl Event.replay texts = texts := by
  induction events with
  | nil => rfl
  | cons event events ih =>
      rw [List.forall_mem_cons] at h
      rw [List.foldl_cons, (Event.of_isReport h.1).2.1, ih h.2]

theorem tells_advance {lines : List Line} (hreports : Reports events lines) (command : Command)
    (args : List Value) (pos : Position) (m : Machine (σ × List Request))
    {files : σ × List Request} (hasked : files.2.map Request.call =
      m.files.2.map Request.call ++ (Event.dispatched command args pos).asked?.toList) :
    Tells (.dispatched command args pos :: events) m
      (m.advance (.dispatched command args pos :: events) lines files) where
  trace := by simp [advance]
  inner event hevent := by
    cases hevent with
    | head => rfl
    | tail _ hevent => exact (Event.of_isReport (hreports.isReport event hevent)).1
  texts := (foldl_replay_reports hreports.isReport _).symm
  pos := by
    have hnone : events.filterMap Event.start? = [] :=
      List.filterMap_eq_nil_iff.2 fun event h =>
        (Event.of_isReport (hreports.isReport event h)).2.2.1
    rw [List.filterMap_cons_none rfl, hnone]
    rfl
  asked := by
    have hnone : events.filterMap Event.asked? = [] :=
      List.filterMap_eq_nil_iff.2 fun event h =>
        (Event.of_isReport (hreports.isReport event h)).2.2.2
    rw [advance, hasked, List.filterMap_cons, hnone]
    cases (Event.dispatched command args pos).asked? <;> rfl
  complaints := by
    rw [List.filterMap_cons_none rfl, hreports.failures]
    simp [complaints, advance, Terminal.lines_foldl_push]

end Machine

namespace Run

variable {σ α β : Type}

def Telling (x : Run (σ × List Request) α) : Prop :=
  ∀ m, Appends Machine.Tells x m

theorem Telling.bind {x : Run (σ × List Request) α} {f : α → Run (σ × List Request) β}
    (hx : Telling x) (hf : ∀ a, Telling (f a)) : Telling (x >>= f) :=
  fun m => (hx m).bind Machine.Tells.trans fun a m' _ => hf a m'

theorem Telling.of_nothing {x : Run (σ × List Request) α} (h : ∀ m, (result x m).2 = m) :
    Telling x := by
  intro m
  rw [Appends, h m]
  exact ⟨[], .refl m⟩

theorem telling_enter (pos : Position) : Telling (enter pos : Run (σ × List Request) Unit) := by
  refine fun m => ⟨[.statement pos], ?_, ?_, ?_, ?_, ?_, ?_⟩
  · exact Array.toList_push
  · simp [Event.isBoundary]
  · rfl
  · rfl
  · exact (List.append_nil _).symm
  · exact (List.append_nil _).symm

theorem telling_assign (name : String) (value : Value) :
    Telling (assign name value : Run (σ × List Request) Unit) := by
  refine fun m => ⟨[.assigned name value], ?_, ?_, ?_, ?_, ?_, ?_⟩
  · exact Array.toList_push
  · simp [Event.isBoundary]
  · exact m.environment.texts_insert name value
  · rfl
  · exact (List.append_nil _).symm
  · exact (List.append_nil _).symm

variable (system : FileSystem σ) (limits : Limits) (patience : Nat)

theorem telling_call (command : Command) (args : List Value) (pos : Position) :
    Telling (call ⟨system.recorded, limits, patience⟩ command args pos) := by
  intro m
  apply result_call_cases (motive := fun ending => ∃ events, Machine.Tells events m ending.2)
  · rintro request events rfl htexts hreports
    refine ⟨_, Machine.tells_advance hreports request.command args pos m ?_⟩
    rw [Event.asked?_dispatched request.command_ne_wait, htexts, Option.toList_some]
    exact List.map_append
  · rintro duration events rfl rfl hreports
    exact ⟨_, Machine.tells_advance hreports .wait [duration] pos m (List.append_nil _).symm⟩
  · exact fun _ => ⟨[], .refl m⟩

theorem telling_lockstep :
    Lockstep id (fun x _ => Telling x) (⟨system.recorded, limits, patience⟩ : Setting _)
      ⟨system.recorded, limits, patience⟩ fun _ _ => True where
  pure _ := .of_nothing fun _ => rfl
  bind := Telling.bind
  fault _ := .of_nothing fun _ => rfl
  compared _ _ _ _ m := ⟨_, m.tells_event rfl (fun _ => rfl) rfl rfl rfl⟩
  lookup _ := .of_nothing fun _ => rfl
  call command args pos _ := telling_call system limits patience command args pos
  assign := telling_assign
  enter := telling_enter
  maxIterations := rfl
  patience := rfl
  giveUp := .of_nothing fun _ => rfl
  loopLimit _ _ := .of_nothing fun _ => rfl
  loopLimitReached _ _ m := ⟨_, m.tells_event rfl (fun _ => rfl) rfl rfl rfl⟩
  loopFinished _ _ m := ⟨_, m.tells_event rfl (fun _ => rfl) rfl rfl rfl⟩

end Run

end FileChores
