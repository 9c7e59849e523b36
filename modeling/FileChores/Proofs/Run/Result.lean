import FileChores.Run.Statement
import FileChores.Session

/-!
# Results of runs

What a run comes to when it starts in a given machine: a value or a halt, and the machine it leaves.
-/

namespace FileChores

namespace Run

variable {σ α β : Type}

def result (x : Run σ α) (m : Machine σ) : Except Halt α × Machine σ :=
  x.run.run m

theorem result_pure (a : α) (m : Machine σ) : result (pure a) m = (.ok a, m) := rfl

theorem result_bind_ok {x : Run σ α} {a : α} {m m' : Machine σ} (h : result x m = (.ok a, m'))
    (f : α → Run σ β) : result (x >>= f) m = result (f a) m' := by
  rw [result, ExceptT.run_bind, StateT.run_bind]
  rw [result] at h
  rw [h]
  rfl

theorem result_bind_error {x : Run σ α} {halt : Halt} {m m' : Machine σ}
    (h : result x m = (.error halt, m')) (f : α → Run σ β) :
    result (x >>= f) m = (.error halt, m') := by
  rw [result, ExceptT.run_bind, StateT.run_bind]
  rw [result] at h
  rw [h]
  rfl

theorem exists_of_result_bind {x : Run σ α} {f : α → Run σ β} {b : β} {m m' : Machine σ}
    (h : result (x >>= f) m = (.ok b, m')) :
    ∃ a m₁, result x m = (.ok a, m₁) ∧ result (f a) m₁ = (.ok b, m') := by
  rcases hx : result x m with ⟨halt | a, m₁⟩
  · rw [result_bind_error hx] at h
    cases h
  · rw [result_bind_ok hx] at h
    exact ⟨a, m₁, rfl, h⟩

/-- The run goes from the machine to one that some items lead to. -/
def Appends {ι : Type} (leads : List ι → Machine σ → Machine σ → Prop) (x : Run σ α)
    (m : Machine σ) : Prop :=
  ∃ items, leads items m (result x m).2

theorem Appends.bind {ι : Type} {leads : List ι → Machine σ → Machine σ → Prop}
    (htrans : ∀ {front back m m' m''}, leads front m m' → leads back m' m'' →
      leads (front ++ back) m m'')
    {x : Run σ α} {f : α → Run σ β} {m : Machine σ} (hx : Appends leads x m)
    (hf : ∀ a m', result x m = (.ok a, m') → Appends leads (f a) m') :
    Appends leads (x >>= f) m := by
  obtain ⟨front, hfront⟩ := hx
  rcases h : result x m with ⟨halt | a, m'⟩ <;> rw [h] at hfront
  · rw [Appends, result_bind_error h]
    exact ⟨front, hfront⟩
  · rw [Appends, result_bind_ok h]
    obtain ⟨back, hback⟩ := hf a m' h
    exact ⟨front ++ back, htrans hfront hback⟩

theorem result_fault (e : Fault) (m : Machine σ) :
    result (fault e : Run σ α) m = (.error (.fault e), m) := rfl

/-! ## Operands -/

theorem exists_of_result_evaluateAll_cons {s : Setting σ} {e : Expr} {es : List Expr}
    {values : List Value} {m m' : Machine σ}
    (h : result (evaluateAll s (e :: es)) m = (.ok values, m')) :
    ∃ value rest m₁, values = value :: rest ∧ result (evaluate s e) m = (.ok value, m₁) ∧
      result (evaluateAll s es) m₁ = (.ok rest, m') := by
  rw [evaluateAll] at h
  obtain ⟨value, m₁, hvalue, h⟩ := exists_of_result_bind h
  obtain ⟨rest, m₂, hrest, h⟩ := exists_of_result_bind h
  cases h
  exact ⟨value, rest, m₁, rfl, hvalue, hrest⟩

theorem length_of_evaluateAll {s : Setting σ} {es : List Expr} {values : List Value}
    {m m' : Machine σ} (h : result (evaluateAll s es) m = (.ok values, m')) :
    values.length = es.length := by
  induction es generalizing m values with
  | nil =>
      rw [evaluateAll, result_pure] at h
      cases h
      rfl
  | cons e es ih =>
      obtain ⟨value, rest, m₁, rfl, -, hrest⟩ := exists_of_result_evaluateAll_cons h
      rw [List.length_cons, List.length_cons, ih hrest]

/-! ## At the limit of a loop -/

theorem limit_le_or_lt (limit : Option Nat) (done : Nat) :
    (∃ n, limit = some n ∧ n ≤ done) ∨ ∀ n ∈ limit, done < n := by
  cases limit with
  | none => exact .inr fun _ h => by cases h
  | some n =>
      by_cases h : n ≤ done
      · exact .inl ⟨n, rfl, h⟩
      · exact .inr fun _ hn => by cases hn; omega

theorem checkLimit_of_le {limit : Nat} (pos : Position) {done : Nat} (h : limit ≤ done)
    (m : Machine σ) :
    result (checkLimit (some limit) pos done) m = (.error (.fault (.loopLimit limit pos)),
      { m with trace := m.trace.push (.loopLimitReached limit pos) }) := by
  rw [checkLimit, if_pos h]
  rfl

theorem checkLimit_of_lt {limit : Option Nat} (pos : Position) {done : Nat}
    (h : ∀ n ∈ limit, done < n) : (checkLimit limit pos done : Run σ Unit) = pure () := by
  cases limit with
  | none => rfl
  | some n => rw [checkLimit, if_neg (Nat.not_le.2 (h n rfl))]

end Run

/-! ## Whole programs -/

namespace Program

open Run

variable {σ : Type}

def start (program : Program) (files : σ) : Machine σ :=
  { Machine.fresh files with trace := #[.running program.body.length] }

def conclude : Except Halt Unit × Machine σ → Outcome × Machine σ
  | (.ok (), m) => (.finished, { m with trace := m.trace.push (.finished m.environment.size) })
  | (.error (.fault fault), m) =>
      (.aborted fault, { m with trace := m.trace.push (.aborted fault) })
  | (.error .unfinished, m) => (.unfinished, m)

theorem runFrom_eq (s : Setting σ) (program : Program) (m : Machine σ) :
    program.runFrom s m = conclude (result (executeBlock s program.body)
      { m with trace := m.trace.push (.running program.body.length) }) := by
  rw [runFrom, result]
  rcases (executeBlock s program.body).run.run _ with ⟨(fault | _) | _, m⟩ <;> rfl

theorem runWith_eq (s : Setting σ) (program : Program) (files : σ) :
    program.runWith s files =
      conclude (result (executeBlock s program.body) (program.start files)) :=
  runFrom_eq s program (.fresh files)

theorem conclude_terminal (ending : Except Halt Unit × Machine σ) :
    (conclude ending).2.terminal = ending.2.terminal := by
  obtain ⟨(fault | _) | _, m⟩ := ending <;> rfl

theorem conclude_files (ending : Except Halt Unit × Machine σ) :
    (conclude ending).2.files = ending.2.files := by
  obtain ⟨(fault | _) | _, m⟩ := ending <;> rfl

theorem conclude_pos (ending : Except Halt Unit × Machine σ) :
    (conclude ending).2.pos = ending.2.pos := by
  obtain ⟨(fault | _) | _, m⟩ := ending <;> rfl

theorem conclude_eq_aborted {ending : Except Halt Unit × Machine σ} {fault : Fault}
    (h : (conclude ending).1 = .aborted fault) : ∃ m, ending = (.error (.fault fault), m) := by
  obtain ⟨(fault | _) | _, m⟩ := ending <;> cases h
  exact ⟨m, rfl⟩

end Program

end FileChores
