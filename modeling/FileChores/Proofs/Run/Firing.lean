import FileChores.Proofs.Grammar.Queries
import FileChores.Proofs.Run.Account

/-!
# What evaluating does

Evaluating an expression or a condition runs its queries one after another, each behind those in its
arguments, up to the first node that faults, and changes nothing else. A query of a script comes to
a number.
-/

namespace FileChores

namespace Expr

mutual

/-- The nodes of the expression in the order in which they are done: each behind its parts, and the
parts from left to right. -/
def postorder : Expr → List Expr
  | number value pos => [number value pos]
  | text content pos => [text content pos]
  | word name pos => [word name pos]
  | binary op left right pos => postorder left ++ (postorder right ++ [binary op left right pos])
  | query command args pos => postorderAll args ++ [query command args pos]

def postorderAll : List Expr → List Expr
  | [] => []
  | first :: rest => postorder first ++ postorderAll rest

end

mutual

theorem mem_postorder_iff {node e : Expr} : node ∈ e.postorder ↔ node.Occurs e := by
  rw [occurs_iff]
  cases e with
  | number | text | word => simp [postorder, parts]
  | binary op left right pos =>
      rw [postorder, List.mem_append, List.mem_append, mem_postorder_iff, mem_postorder_iff]
      simp [parts, or_assoc]
  | query command args pos =>
      rw [postorder, List.mem_append, mem_postorderAll_iff]
      simp [parts]

theorem mem_postorderAll_iff {node : Expr} {es : List Expr} :
    node ∈ postorderAll es ↔ ∃ e ∈ es, node.Occurs e := by
  cases es with
  | nil => simp [postorderAll]
  | cons first rest =>
      rw [postorderAll, List.mem_append, mem_postorder_iff, mem_postorderAll_iff]
      simp

end

def call? : Expr → Option (Command × Nat × Position)
  | query command args pos => some (command, args.length, pos)
  | _ => none

inductive Stops : Expr → Fault → Prop
  | arguments {command : Command} {args : List Expr} (pos : Position) :
      args.length ≠ command.arity →
      Stops (query command args pos) (.argumentCount command args.length pos)
  | subtraction {left right : Value} (left' right' : Expr) (pos : Position) :
      left.sub? right = none →
      Stops (binary .sub left' right' pos)
        (.textSubtraction left.describe right.describe pos)

end Expr

def Deed.node (deed : Deed) : Command × Nat × Position :=
  (deed.command, deed.args.length, deed.pos)

/-- What a query comes to: the number of entries or bytes that was answered, or zero. -/
def Exchange.number : Exchange → Float
  | ⟨.count _, ⟨.ok n, _⟩⟩ | ⟨.space _, ⟨.ok n, _⟩⟩ => Float.ofNat n
  | _ => 0

theorem Exchange.value_of_isQuery {exchange : Exchange}
    (h : exchange.request.command.isQuery = true) :
    exchange.value = some (.number exchange.number) := by
  obtain ⟨request, result, detour⟩ := exchange
  cases request <;> first | (cases result <;> rfl) | cases h

variable {σ α β : Type}

/-- Between the two machines the deeds were done and nothing else was: the variables and the place
are the same, and only the lines of the deeds were printed. -/
structure Machine.Does (deeds : List Deed) (m m' : Machine (σ × List Exchange)) : Prop
    extends Adds deeds m m' where
  environment : m'.environment = m.environment
  pos : m'.pos = m.pos
  terminal : m'.terminal = (deeds.flatMap Deed.lines).foldl Terminal.push m.terminal

namespace Machine.Does

variable {deeds more : List Deed} {m m' m'' : Machine (σ × List Exchange)}

theorem refl (m : Machine (σ × List Exchange)) : Does [] m m where
  toAdds := .refl m
  environment := rfl
  pos := rfl
  terminal := rfl

theorem trans (h : Does deeds m m') (h' : Does more m' m'') : Does (deeds ++ more) m m'' where
  toAdds := h.toAdds.trans h'.toAdds
  environment := h'.environment.trans h.environment
  pos := h'.pos.trans h.pos
  terminal := by rw [h'.terminal, h.terminal, List.flatMap_append, List.foldl_append]

end Machine.Does

namespace Run

/-- The deeds are those of all queries among the nodes, or of the queries in front of a node that
stops the run. -/
inductive Settles (nodes : List Expr) (deeds : List Deed) : Except Halt α → Prop
  | whole (a : α) : deeds.map Deed.node = nodes.filterMap Expr.call? → Settles nodes deeds (.ok a)
  | stopped {done later : List Expr} {node : Expr} {fault : Fault} :
      nodes = done ++ node :: later → deeds.map Deed.node = done.filterMap Expr.call? →
      node.Stops fault → Settles nodes deeds (.error (.fault fault))

theorem Settles.at_once {node : Expr} {fault : Fault} (h : node.Stops fault) :
    Settles [node] [] (.error (.fault fault) : Except Halt α) := by
  have hfirst : [node] = [] ++ node :: [] := rfl
  exact .stopped hfirst rfl h

def Fires (nodes : List Expr) (x : Run (σ × List Exchange) α) : Prop :=
  ∀ m, ∃ deeds, Machine.Does deeds m (result x m).2 ∧ Settles nodes deeds (result x m).1

theorem Fires.bind {front back : List Expr} {x : Run (σ × List Exchange) α}
    {f : α → Run (σ × List Exchange) β} (hx : Fires front x)
    (hf : ∀ a m m', result x m = (.ok a, m') → Fires back (f a)) :
    Fires (front ++ back) (x >>= f) := by
  intro m
  obtain ⟨deeds, hfires, hsettles⟩ := hx m
  rcases h : result x m with ⟨halt | a, m'⟩ <;> rw [h] at hfires hsettles
  · rw [result_bind_error h]
    refine ⟨deeds, hfires, ?_⟩
    cases hsettles with
    | stopped hnodes hdeeds hstops =>
        exact .stopped (by rw [hnodes, List.append_assoc, List.cons_append]) hdeeds hstops
  · rw [result_bind_ok h]
    obtain ⟨more, hfires', hsettles'⟩ := hf a m m' h m'
    refine ⟨deeds ++ more, hfires.trans hfires', ?_⟩
    have hdeeds : deeds.map Deed.node = front.filterMap Expr.call? := by
      cases hsettles with
      | whole _ hdeeds => exact hdeeds
    generalize (result (f a) m').1 = ending at hsettles' ⊢
    cases hsettles' with
    | whole b hmore =>
        exact .whole b (by rw [List.map_append, List.filterMap_append, hdeeds, hmore])
    | stopped hnodes hmore hstops =>
        refine .stopped (by rw [hnodes, List.append_assoc]) ?_ hstops
        rw [List.map_append, List.filterMap_append, hdeeds, hmore]

theorem Fires.of_quiet {nodes : List Expr} {x : Run (σ × List Exchange) α}
    (hnodes : nodes.filterMap Expr.call? = [])
    (h : ∀ m, ∃ a, (result x m).1 = .ok a ∧ Machine.Does [] m (result x m).2) :
    Fires nodes x := by
  intro m
  obtain ⟨a, hresult, hfires⟩ := h m
  exact ⟨[], hfires, hresult ▸ .whole a hnodes.symm⟩

theorem Fires.of_unchanged {nodes : List Expr} {x : Run (σ × List Exchange) α}
    (hnodes : nodes.filterMap Expr.call? = []) (h : ∀ m, ∃ a, result x m = (.ok a, m)) :
    Fires nodes x := by
  refine .of_quiet hnodes fun m => ?_
  obtain ⟨a, hresult⟩ := h m
  rw [hresult]
  exact ⟨a, rfl, .refl m⟩

theorem Fires.bind_nothing {nodes : List Expr} {x : Run (σ × List Exchange) α}
    {f : α → Run (σ × List Exchange) β} (hx : Fires nodes x) (hf : ∀ a, Fires [] (f a)) :
    Fires nodes (x >>= f) := by
  rw [← List.append_nil nodes]
  exact hx.bind fun a _ _ _ => hf a

theorem fires_combine (op : Operator) (left right : Value) (left' right' : Expr) (pos : Position) :
    Fires [.binary op left' right' pos]
      (combine op left right pos : Run (σ × List Exchange) Value) := by
  cases op with
  | add => exact .of_unchanged rfl fun m => ⟨_, rfl⟩
  | sub =>
      rw [combine]
      cases hsub : left.sub? right with
      | some value => exact .of_unchanged rfl fun m => ⟨_, rfl⟩
      | none => exact fun m => ⟨[], .refl m, .at_once (.subtraction left' right' pos hsub)⟩

variable (system : FileSystem σ) (limits : Limits) (patience : Nat)

theorem fires_call (command : Command) {args : List Expr} {values : List Value}
    (hlength : values.length = args.length) (pos : Position) :
    Fires [.query command args pos]
      (call ⟨system.logged, limits, patience⟩ command values pos) := by
  intro m
  apply result_call_cases (motive := fun ending => ∃ deeds : List Deed,
    Machine.Does deeds m ending.2 ∧ Settles [.query command args pos] deeds ending.1)
  · rintro request events rfl htexts hreports
    let deed := Deed.asked ⟨request, (system.answer request m.files.1).1⟩ values pos htexts
    have hadds := Machine.adds_advance (m := m) deed hreports.call?_eq_none
      (system.answer request m.files.1).2
    refine ⟨[deed], ⟨hadds, rfl, rfl, ?_⟩, .whole _ ?_⟩
    · rw [List.flatMap_singleton]
      rfl
    · simp [Deed.node, deed, Deed.command, Deed.args, Deed.pos, hlength, Expr.call?]
  · rintro duration events rfl rfl hreports
    have hadds := Machine.adds_advance (m := m) (Deed.waited duration pos)
      hreports.call?_eq_none m.files.1
    rw [Deed.exchange?, Option.toList_none, List.append_nil] at hadds
    refine ⟨[.waited duration pos], ⟨hadds, rfl, rfl, ?_⟩, .whole _ ?_⟩
    · rw [List.flatMap_singleton]
      rfl
    · simp [Deed.node, Deed.command, Deed.args, Deed.pos, ← hlength, Expr.call?]
  · intro hne
    rw [hlength] at hne ⊢
    exact ⟨[], .refl m, .at_once (.arguments pos hne)⟩

mutual

theorem fires_evaluate (e : Expr) :
    Fires e.postorder (evaluate ⟨system.logged, limits, patience⟩ e) := by
  cases e with
  | number value pos =>
      rw [evaluate]
      exact .of_unchanged rfl fun m => ⟨_, rfl⟩
  | text content pos =>
      rw [evaluate]
      exact .of_unchanged rfl fun m => ⟨_, rfl⟩
  | word name pos =>
      rw [evaluate]
      exact .of_unchanged rfl fun m => ⟨_, rfl⟩
  | binary op left right pos =>
      rw [evaluate, Expr.postorder]
      refine (fires_evaluate left).bind fun a _ _ _ => ?_
      exact (fires_evaluate right).bind fun b _ _ _ => fires_combine op a b left right pos
  | query command args pos =>
      rw [evaluate, Expr.postorder]
      refine (fires_evaluateAll args).bind fun values _ _ hvalues => ?_
      have hcall := fires_call system limits patience command (length_of_evaluateAll hvalues) pos
      exact hcall.bind_nothing fun _ => .of_unchanged rfl fun m => ⟨_, rfl⟩

theorem fires_evaluateAll (args : List Expr) :
    Fires (Expr.postorderAll args) (evaluateAll ⟨system.logged, limits, patience⟩ args) := by
  cases args with
  | nil =>
      rw [evaluateAll]
      exact .of_unchanged rfl fun m => ⟨_, rfl⟩
  | cons first rest =>
      rw [evaluateAll, Expr.postorderAll]
      refine (fires_evaluate first).bind fun value _ _ _ => ?_
      exact (fires_evaluateAll rest).bind_nothing fun _ => .of_unchanged rfl fun m => ⟨_, rfl⟩

end

theorem fires_test (condition : Condition) :
    Fires (condition.left.postorder ++ condition.right.postorder)
      (test ⟨system.logged, limits, patience⟩ condition) := by
  rw [test]
  refine (fires_evaluate system limits patience condition.left).bind fun a _ _ _ => ?_
  refine (fires_evaluate system limits patience condition.right).bind_nothing fun b => ?_
  exact .of_quiet rfl fun m => ⟨_, rfl, ⟨Machine.adds_of_event rfl rfl rfl rfl, rfl, rfl, rfl⟩⟩

/-! ## Queries -/

/-- A query that succeeds or fails comes to a number, so that its value is never made up. -/
theorem result_evaluate_query {s : Setting σ} {command : Command} {args : List Expr}
    {pos : Position} (hquery : command.isQuery = true) {m m' : Machine σ} {value : Value}
    (h : result (evaluate s (.query command args pos)) m = (.ok value, m')) :
    ∃ values m₁ request, result (evaluateAll s args) m = (.ok values, m₁) ∧
      request.command = command ∧ values.map Value.toText = request.texts ∧
      let x := (Exchange.mk request (s.files.answer request m₁.files).1).number
      result (call s command values pos) m₁ = (.ok (some (.number x)), m') ∧ value = .number x := by
  rw [evaluate] at h
  obtain ⟨values, m₁, hvalues, h⟩ := exists_of_result_bind h
  obtain ⟨answer, m₂, hcall, h⟩ := exists_of_result_bind h
  cases h
  have hlength : values.length = command.arity := by
    by_contra hne
    rw [result_call_none s hne] at hcall
    cases hcall
  obtain ⟨action, haction⟩ := Action.ofCall?_of_length hlength
  cases action with
  | wait duration =>
      obtain ⟨rfl, -⟩ := Action.ofCall?_eq_wait haction
      cases hquery
  | ask request =>
      obtain ⟨rfl, htexts⟩ := Action.ofCall?_eq_ask haction
      obtain ⟨events, -, hresult⟩ := result_call_ask s haction pos m₁
      rw [Exchange.value_of_isQuery hquery] at hresult
      refine ⟨values, m₁, request, hvalues, rfl, htexts, ?_⟩
      cases hcall.symm.trans hresult
      exact ⟨hresult, rfl⟩

/-- Evaluating an expression or a condition does what its queries call for, each once and behind
those in its arguments, from left to right and up to the first node that stops the run. It changes
no variable and not the place, and prints nothing else. In a script every query calls a command that
has a value, and comes to the number that was answered, or to zero if the request failed. -/
theorem evaluate_fires (system : FileSystem σ) (limits : Limits) (patience : Nat) :
    let s : Setting σ := ⟨system, limits, patience⟩
    let logged : Setting (σ × List Exchange) := ⟨system.logged, limits, patience⟩
    (∀ (e : Expr) m, (∀ node : Expr, node ∈ e.postorder ↔ node.Occurs e) ∧
      result (evaluate s e) (m.seen Prod.fst) =
        ((result (evaluate logged e) m).1, (result (evaluate logged e) m).2.seen Prod.fst) ∧
      ∃ deeds, Machine.Does deeds m (result (evaluate logged e) m).2 ∧
        Settles e.postorder deeds (result (evaluate logged e) m).1) ∧
    (∀ (condition : Condition) m,
      result (test s condition) (m.seen Prod.fst) =
        ((result (test logged condition) m).1,
          (result (test logged condition) m).2.seen Prod.fst) ∧
      ∃ deeds, Machine.Does deeds m (result (test logged condition) m).2 ∧
        Settles (condition.left.postorder ++ condition.right.postorder) deeds
          (result (test logged condition) m).1) ∧
    ∀ source program, Program.ofSource source = .ok program → ∀ command args pos,
      (Expr.query command args pos).Inside program.body → command.isQuery = true ∧
        ∀ m value m', result (evaluate s (.query command args pos)) m = (.ok value, m') →
          ∃ values m₁ request, result (evaluateAll s args) m = (.ok values, m₁) ∧
            request.command = command ∧ values.map Value.toText = request.texts ∧
            let x := (Exchange.mk request (system.answer request m₁.files).1).number
            result (call s command values pos) m₁ = (.ok (some (.number x)), m') ∧
              value = .number x := by
  intro s logged
  have hlogged : system.logged.LooksLike Prod.fst system := fun _ _ => rfl
  have c : Congruence id (Seen (Machine.seen Prod.fst)) logged s :=
    (seen_acts hlogged).congruence rfl
  refine ⟨fun e m => ⟨fun node => Expr.mem_postorder_iff, Seen.result_eq (c.evaluate e) m, ?_⟩,
    fun condition m => ⟨Seen.result_eq (c.test condition) m, ?_⟩, ?_⟩
  · exact fires_evaluate system limits patience e m
  · exact fires_test system limits patience condition m
  · intro source program h command args pos hinside
    have hquery := Program.isQuery_of_inside h hinside
    exact ⟨hquery, fun m value m' hvalue => result_evaluate_query hquery hvalue⟩

end Run

end FileChores
