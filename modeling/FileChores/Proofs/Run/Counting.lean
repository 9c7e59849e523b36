import FileChores.FileSystem.Scripted
import FileChores.Proofs.Grammar.Script
import FileChores.Proofs.Lexing.Spacing
import FileChores.Proofs.Numerals
import FileChores.Proofs.Run.Blame
import FileChores.Proofs.Run.Turns

/-!
# Counting loops

A loop that adds to a number until a bound is reached makes as many iterations as it takes, or as
its limit allows. The number stays exact all the way.
-/

namespace FileChores

/-! ## Reading the script -/

namespace Position

theorem after_of_digits {run : List Char} (h : run.all Char.isDigit = true) (line column : Nat) :
    (⟨line, column⟩ : Position).after run = ⟨line, column + run.length⟩ := by
  induction run generalizing column with
  | nil => rfl
  | cons c run ih =>
      rw [List.all_cons, Bool.and_eq_true] at h
      have hline : c ≠ '\n' := by
        rintro rfl
        exact absurd h.1 (by decide)
      rw [after_cons, advance, if_neg hline, ih h.2, List.length_cons, Nat.add_right_comm,
        Nat.add_assoc]

end Position

namespace Lexemes

open Lexeme

theorem scan_before_digits {here : Position} {front digits rest : List Char} {list : List Lexeme}
    {line column n : Nat} (hfront : scan here front = .ok ⟨list, ⟨line, column⟩⟩)
    (hdigits : Number.Denotes digits n) (hrest : Parted rest) :
    scan here (front ++ ' ' :: (digits ++ rest)) =
      (scan ⟨line, column + 1 + digits.length⟩ rest).map
        (behind (list ++ [⟨.number (Float.ofNat n), ⟨line, column + 1⟩⟩])) := by
  have hspace : (⟨line, column⟩ : Position).advance ' ' = ⟨line, column + 1⟩ := rfl
  have hstops := hrest.stops fun c => isDigit_eq_false_of_isSkipped (c := c)
  rw [scan_append hfront (parted_space _), scan_skipped rfl, hspace, scan_digits hdigits hstops,
    map_behind, Position.after_of_digits hdigits.isDigit]

end Lexemes

namespace Comparison

theorem less_numbers (x y : Float) : less.holds (.number x) (.number y) = decide (x < y) := by
  rw [holds, Value.order?]
  by_cases h : x < y
  · rw [if_pos h, decide_eq_true h]
    rfl
  · rw [if_neg h, decide_eq_false h]
    split
    · rfl
    split <;> rfl

end Comparison

namespace Machine

variable {σ : Type}

def assigned (m : Machine σ) (name : String) (value : Value) : Machine σ :=
  { m with
    trace := m.trace.push (.assigned name value)
    environment := m.environment.insert name value }

theorem assigned_again {m : Machine σ} {env : Environment} {name : String} {value : Value}
    (h : m.environment = env.insert name value) (other : Value) :
    (m.assigned name other).environment = env.insert name other := by
  ext other'
  rw [assigned, h, Environment.get?_insert, Environment.get?_insert, Environment.get?_insert]
  split <;> rfl

end Machine

namespace Run

variable {σ : Type} {s : Setting σ} {condition : Condition} {body : List Statement} {n : Nat}
  {m m' : Machine σ}

theorem result_enter (pos : Position) (m : Machine σ) :
    result (enter pos) m = (.ok (), m.entered pos) := rfl

theorem result_execute_declare {pos : Position} {e : Expr} {value : Value} (name : String)
    (h : result (evaluate s e) (m.entered pos) = (.ok value, m')) :
    result (execute s (.declare name e pos)) m = (.ok (), m'.assigned name value) := by
  rw [execute, result_bind_ok (result_enter pos m), result_bind_ok h]
  rfl

theorem result_execute_assign {pos : Position} {e : Expr} {value : Value} (name : String)
    (h : result (evaluate s e) (m.entered pos) = (.ok value, m')) :
    result (execute s (.assign name e pos)) m = (.ok (), m'.assigned name value) := by
  rw [execute, result_bind_ok (result_enter pos m), result_bind_ok h]
  rfl

theorem result_lookup {name : String} {value : Value} (h : m.environment.get? name = some value) :
    result (lookup name) m = (.ok value, m) := by
  show (Except.ok ((m.environment.get? name).getD _), m) = _
  rw [h]
  rfl

/-- Behind iterations that it has made a loop goes on with the rest of its patience. -/
theorem result_iterate_of_turns (h : Turns s condition body n m m') (pos : Position)
    (patience : Nat) :
    result (iterate s.limits.maxIterations pos (test s condition) (executeBlock s body)
        (patience + n) 0) m =
      result (iterate s.limits.maxIterations pos (test s condition) (executeBlock s body)
        patience n) m' := by
  induction h generalizing patience with
  | none m => rfl
  | turn hturns htest hallows hbody ih =>
      rw [← Nat.add_assoc, Nat.add_right_comm, ih, iterate, result_bind_ok htest, if_pos rfl,
        checkLimit_of_lt pos hallows, pure_bind, result_bind_ok hbody]

end Run

namespace Counting

open Run

/-- The script that counts from one number on in equal steps until it reaches another. -/
def source (first bound step : String) : String :=
  "\x7b var i = " ++ first ++ " for i < " ++ bound ++ " \x7b i = i + " ++ step ++ " \x7d \x7d"

def condition (bound column : Nat) : Condition :=
  ⟨.word "i" ⟨1, column + 5⟩, .less, .number (Float.ofNat bound) ⟨1, column + 9⟩, ⟨1, column + 5⟩⟩

def body (step column : Nat) : Block :=
  [.assign "i" (.binary .add (.word "i" ⟨1, column + 7⟩)
    (.number (Float.ofNat step) ⟨1, column + 11⟩) ⟨1, column + 9⟩) ⟨1, column + 3⟩]

def loop (bound step p q : Nat) : Statement :=
  .loop (condition bound p) (body step q) ⟨1, p + 1⟩

/-- The tree of the script: `p` is the column behind the first number, and `q` the column behind
the second one. -/
def program (start bound step p q : Nat) : Program :=
  ⟨[.declare "i" (.number (Float.ofNat start) ⟨1, 11⟩) ⟨1, 3⟩,
    loop bound step p q]⟩

theorem name_ne (command : Command) : command.name ≠ "i" := by
  cases command <;> decide

/-- The derivation of the script, where `r` is the column behind the third number. -/
def derivation (start bound step p q r : Nat) : Grammar.Block :=
  let i (column : Nat) : Grammar.Primary := .word "i" ⟨1, column⟩ fun command _ => name_ne command
  .mk ⟨1, 1⟩ (.more
    (.declare ⟨1, 3⟩ "i" ⟨1, 7⟩ ⟨1, 9⟩ (.mk (.number (Float.ofNat start) ⟨1, 11⟩) .done))
    (.more
      (.loop ⟨1, p + 1⟩
        ⟨.mk (i (p + 5)) .done, .less, ⟨1, p + 7⟩,
          .mk (.number (Float.ofNat bound) ⟨1, p + 9⟩) .done⟩
        (.mk ⟨1, q + 1⟩ (.more
          (.assign "i" ⟨1, q + 3⟩ name_ne ⟨1, q + 5⟩
            (.mk (i (q + 7)) (.link .add ⟨1, q + 9⟩
              (.number (Float.ofNat step) ⟨1, q + 11⟩) .done)))
          (.close ⟨1, r + 1⟩))))
      (.close ⟨1, r + 3⟩)))

theorem derivation_program (start bound step p q r : Nat) :
    (derivation start bound step p q r).program = program start bound step p q := rfl

/-! The script is its three numbers and the four texts between them. -/

theorem scan_start : Lexemes.scan .start "\x7b var i =".toList =
    .ok ⟨[⟨.openBrace, ⟨1, 1⟩⟩, ⟨.varKeyword, ⟨1, 3⟩⟩, ⟨.word "i", ⟨1, 7⟩⟩, ⟨.assign, ⟨1, 9⟩⟩],
      ⟨1, 10⟩⟩ := by
  cbv

theorem scan_loop (p : Nat) : Lexemes.scan ⟨1, p⟩ " for i <".toList =
    .ok ⟨[⟨.forKeyword, ⟨1, p + 1⟩⟩, ⟨.word "i", ⟨1, p + 5⟩⟩, ⟨.less, ⟨1, p + 7⟩⟩],
      ⟨1, p + 8⟩⟩ := by
  cbv

theorem scan_body (q : Nat) : Lexemes.scan ⟨1, q⟩ " \x7b i = i +".toList =
    .ok ⟨[⟨.openBrace, ⟨1, q + 1⟩⟩, ⟨.word "i", ⟨1, q + 3⟩⟩, ⟨.assign, ⟨1, q + 5⟩⟩,
      ⟨.word "i", ⟨1, q + 7⟩⟩, ⟨.plus, ⟨1, q + 9⟩⟩], ⟨1, q + 10⟩⟩ := by
  cbv

theorem scan_end (r : Nat) : Lexemes.scan ⟨1, r⟩ " \x7d \x7d".toList =
    .ok ⟨[⟨.closeBrace, ⟨1, r + 1⟩⟩, ⟨.closeBrace, ⟨1, r + 3⟩⟩], ⟨1, r + 4⟩⟩ := by
  cbv

theorem toList_source (first bound step : String) : (source first bound step).toList =
    "\x7b var i =".toList ++ ' ' :: (first.toList ++
      (" for i <".toList ++ ' ' :: (bound.toList ++
        (" \x7b i = i +".toList ++ ' ' :: (step.toList ++ " \x7d \x7d".toList))))) := by
  have happend : source first bound step = "\x7b var i = " ++ first ++ " for i < " ++ bound ++
      " \x7b i = i + " ++ step ++ " \x7d \x7d" := rfl
  simp [happend]

section

variable {first bound step : String} {a b c : Nat}

theorem scan_source (ha : Number.Denotes first.toList a) (hb : Number.Denotes bound.toList b)
    (hc : Number.Denotes step.toList c) {p q r : Nat} (hp : p = 11 + first.length)
    (hq : q = p + 9 + bound.length) (hr : r = q + 11 + step.length) :
    Lexemes.ofSource (source first bound step) =
      .ok ⟨(derivation a b c p q r).yield, ⟨1, r + 4⟩⟩ := by
  have hloop (after : List Char) : Lexeme.Parted (" for i <".toList ++ after) :=
    Lexeme.parted_space _
  have hbody (after : List Char) : Lexeme.Parted (" \x7b i = i +".toList ++ after) :=
    Lexeme.parted_space _
  have hend : Lexeme.Parted " \x7d \x7d".toList := Lexeme.parted_space _
  rw [Lexemes.ofSource, toList_source, Lexemes.scan_before_digits scan_start ha (hloop _),
    String.length_toList, ← hp, Lexemes.scan_before_digits (scan_loop p) hb (hbody _),
    String.length_toList, ← hq, Lexemes.scan_before_digits (scan_body q) hc hend,
    String.length_toList, ← hr, scan_end]
  rfl

theorem ofSource_source (ha : Number.Denotes first.toList a) (hb : Number.Denotes bound.toList b)
    (hc : Number.Denotes step.toList c) {p q : Nat} (hp : p = 11 + first.length)
    (hq : q = p + 9 + bound.length) :
    Program.ofSource (source first bound step) = .ok (program a b c p q) := by
  exact Program.ofSource_eq_ok_iff.2
    ⟨_, scan_source ha hb hc hp hq rfl, _, rfl, derivation_program ..⟩

end

/-! ## Running it -/

variable {σ : Type} {s : Setting σ} {m m' : Machine σ} {a b c v p q n : Nat}

theorem result_test (hv : v ≤ 2 ^ 53) (hb : b ≤ 2 ^ 53)
    (hi : m.environment.get? "i" = some (.number (Float.ofNat v))) :
    result (test s (condition b p)) m = (.ok (decide (v < b)),
      { m with trace := m.trace.push (.compared (.number (Float.ofNat v)) .less
        (.number (Float.ofNat b)) (decide (v < b))) }) := by
  rw [test, condition, evaluate, evaluate, result_bind_ok (result_lookup hi), pure_bind,
    Comparison.less_numbers, decide_eq_decide.2 (Number.ofNat_lt_iff hv hb)]
  rfl

theorem result_sum (hv : v ≤ 2 ^ 53) (hc : c ≤ 2 ^ 53)
    (hi : m.environment.get? "i" = some (.number (Float.ofNat v))) (at₁ at₂ at₃ : Position) :
    result (evaluate s (.binary .add (.word "i" at₁) (.number (Float.ofNat c) at₂) at₃)) m =
      (.ok (.number (Float.ofNat (v + c))), m) := by
  rw [evaluate, evaluate, evaluate, result_bind_ok (result_lookup hi), pure_bind, combine,
    Value.add, Number.ofNat_add hv hc, result_pure]

theorem result_body (hv : v ≤ 2 ^ 53) (hc : c ≤ 2 ^ 53)
    (hi : m.environment.get? "i" = some (.number (Float.ofNat v))) :
    result (executeBlock s (body c q)) m =
      (.ok (), (m.entered ⟨1, q + 3⟩).assigned "i" (.number (Float.ofNat (v + c)))) := by
  have hsum := result_sum (s := s) (m := m.entered ⟨1, q + 3⟩) hv hc hi ⟨1, q + 7⟩ ⟨1, q + 11⟩
    ⟨1, q + 9⟩
  rw [body, executeBlock, executeBlock, result_bind_ok (result_execute_assign "i" hsum),
    result_pure]

def iteration (a b c q n : Nat) : List Event :=
  [.compared (.number (Float.ofNat (a + n * c))) .less (.number (Float.ofNat b)) true,
    .statement ⟨1, q + 3⟩, .assigned "i" (.number (Float.ofNat (a + (n + 1) * c)))]

def course (a b c p q n : Nat) (holds : Bool) : List Event :=
  .statement ⟨1, p + 1⟩ :: (List.range n).flatMap (iteration a b c q) ++
    [.compared (.number (Float.ofNat (a + n * c))) .less (.number (Float.ofNat b)) holds]

def Holds (v : Nat) (m : Machine σ) : Prop :=
  m.environment = Environment.empty.insert "i" (.number (Float.ofNat v))

theorem Holds.get? (h : Holds v m) :
    m.environment.get? "i" = some (.number (Float.ofNat v)) := by
  rw [Holds] at h
  rw [h, Environment.get?_insert, if_pos rfl]

theorem Holds.size (h : Holds v m) : m.environment.size = 1 := by
  rw [Holds] at h
  rw [h]
  rfl

theorem turns (hbc : b + c ≤ 2 ^ 53) (hi : Holds a m) (n : Nat)
    (hbelow : ∀ j < n, a + j * c < b) (hlimit : ∀ limit ∈ s.limits.maxIterations, n ≤ limit) :
    ∃ m', Turns s (condition b p) (body c q) n m m' ∧ Holds (a + n * c) m' ∧
      m'.trace.toList = m.trace.toList ++ (List.range n).flatMap (iteration a b c q) := by
  induction n with
  | zero => exact ⟨m, .none m, by rwa [Nat.zero_mul], by simp⟩
  | succ n ih =>
      obtain ⟨m', hturns, hi', htrace⟩ := ih (fun j hj => hbelow j (by omega))
        fun limit h => Nat.le_of_succ_le (hlimit limit h)
      have hlt := hbelow n (Nat.lt_succ_self n)
      have htest := result_test (s := s) (p := p) (by omega) (show b ≤ 2 ^ 53 by omega) hi'.get?
      rw [decide_eq_true hlt] at htest
      have hbody := result_body (s := s) (q := q) (c := c) (v := a + n * c)
        (m := { m' with trace := m'.trace.push (.compared (.number (Float.ofNat (a + n * c))) .less
          (.number (Float.ofNat b)) true) }) (by omega) (by omega) hi'.get?
      have hnext : a + n * c + c = a + (n + 1) * c := by rw [Nat.succ_mul, Nat.add_assoc]
      rw [hnext] at hbody
      refine ⟨_, .turn hturns htest (fun limit h => hlimit limit h) hbody, ?_, ?_⟩
      · exact Machine.assigned_again hi' _
      · simp [Machine.assigned, Machine.entered, htrace, List.range_succ, iteration]

theorem result_loop (patience : Nat) (hs : s.patience = patience + n)
    (h : Turns s (condition b p) (body c q) n (m.entered ⟨1, p + 1⟩) m') :
    result (execute s (loop b c p q)) m =
      result (iterate s.limits.maxIterations ⟨1, p + 1⟩ (test s (condition b p))
        (executeBlock s (body c q)) patience n) m' := by
  rw [loop, execute, result_bind_ok (result_enter _ m), hs, result_iterate_of_turns h]

section

variable {k : Nat} (hk : IsLeast {k | b ≤ a + k * c} k)

include hk

theorem lt_of_isLeast {n : Nat} (hn : n < k) : a + n * c < b := by
  apply Nat.lt_of_not_le
  intro h
  exact Nat.not_lt.2 (hk.2 h) hn

theorem le_of_isLeast (ha : a ≤ 2 ^ 53) (hbc : b + c ≤ 2 ^ 53) {n : Nat} (hn : n ≤ k) :
    a + n * c ≤ 2 ^ 53 := by
  cases n with
  | zero => rwa [Nat.zero_mul]
  | succ n =>
      have hlt := lt_of_isLeast hk (show n < k from hn)
      rw [Nat.succ_mul]
      omega

theorem result_loop_finished (ha : a ≤ 2 ^ 53) (hbc : b + c ≤ 2 ^ 53) (hi : Holds a m)
    (hlimit : ∀ limit ∈ s.limits.maxIterations, k ≤ limit) (hpatience : k < s.patience) :
    ∃ m', result (execute s (loop b c p q)) m = (.ok (), m') ∧ Holds (a + k * c) m' ∧
      m'.trace.toList = m.trace.toList ++ course a b c p q k false ++
        [.loopFinished k ⟨1, p + 1⟩] := by
  have hentered : Holds a (m.entered ⟨1, p + 1⟩) := hi
  obtain ⟨m', hturns, hi', htrace⟩ :=
    turns (p := p) (q := q) hbc hentered k (fun _ => lt_of_isLeast hk) hlimit
  have hreached : ¬ a + k * c < b := Nat.not_lt.2 hk.1
  have htest := result_test (s := s) (p := p) (le_of_isLeast hk ha hbc (Nat.le_refl k))
    (show b ≤ 2 ^ 53 by omega) hi'.get?
  rw [decide_eq_false hreached] at htest
  obtain ⟨patience, hs⟩ := Nat.exists_eq_add_of_lt hpatience
  have hloop := result_loop (patience + 1) (by omega) hturns
  rw [iterate, result_bind_ok htest, if_neg Bool.false_ne_true, result_record] at hloop
  refine ⟨_, hloop, hi', ?_⟩
  simp [htrace, Machine.entered, course]

theorem result_loop_limited (hbc : b + c ≤ 2 ^ 53) (hi : Holds a m) {limit : Nat}
    (hs : s.limits.maxIterations = some limit) (hlt : limit < k) (hpatience : limit < s.patience) :
    ∃ m', result (execute s (loop b c p q)) m =
        (.error (.fault (.loopLimit limit ⟨1, p + 1⟩)), m') ∧ Holds (a + limit * c) m' ∧
      m'.trace.toList = m.trace.toList ++ course a b c p q limit true ++
        [.loopLimitReached limit ⟨1, p + 1⟩] := by
  have hentered : Holds a (m.entered ⟨1, p + 1⟩) := hi
  have hallowed : ∀ other ∈ s.limits.maxIterations, limit ≤ other :=
    fun other hother => (Option.some.inj (hs.symm.trans hother)).le
  obtain ⟨m', hturns, hi', htrace⟩ := turns (p := p) (q := q) hbc hentered limit
    (fun _ hj => lt_of_isLeast hk (Nat.lt_trans hj hlt)) hallowed
  have hbelow := lt_of_isLeast hk hlt
  have htest := result_test (s := s) (p := p) (by omega) (show b ≤ 2 ^ 53 by omega) hi'.get?
  rw [decide_eq_true hbelow] at htest
  obtain ⟨patience, hpatience⟩ := Nat.exists_eq_add_of_lt hpatience
  have hloop := result_loop (patience + 1) (by omega) hturns
  rw [iterate, result_bind_ok htest, if_pos rfl, hs,
    result_bind_error (checkLimit_of_le _ (Nat.le_refl limit) _)] at hloop
  refine ⟨_, hloop, hi', ?_⟩
  simp [htrace, Machine.entered, course]

end

theorem result_program (a b c p q : Nat) (m : Machine σ) :
    result (executeBlock s (program a b c p q).body) m = result (execute s (loop b c p q))
      ((m.entered ⟨1, 3⟩).assigned "i" (.number (Float.ofNat a))) := by
  have hdeclare : result (execute s (.declare "i" (.number (Float.ofNat a) ⟨1, 11⟩) ⟨1, 3⟩)) m =
      (.ok (), (m.entered ⟨1, 3⟩).assigned "i" (.number (Float.ofNat a))) :=
    result_execute_declare "i" rfl
  rw [program, executeBlock, executeBlock, executeBlock, result_bind_ok hdeclare, bind_pure_unit]

def opening (a : Nat) : List Event :=
  [.parsed 2, .running 2, .statement ⟨1, 3⟩, .assigned "i" (.number (Float.ofNat a))]

theorem lt_patience {k : Nat} {limits : Limits} (hk : k ≤ b) (hb : b ≤ 2 ^ 53)
    (hlimit : ∀ limit ∈ limits.maxIterations, k ≤ limit) : k < limits.patience := by
  unfold Limits.patience
  cases hmax : limits.maxIterations with
  | none =>
      show k < 2 ^ 64
      omega
  | some limit =>
      exact Nat.lt_succ_of_le (hlimit limit (by rw [hmax]; rfl))

end Counting

theorem Program.execute_of_source {σ : Type} (system : FileSystem σ) (limits : Limits) (files : σ)
    {source : String} {program : Program} (h : ofSource source = .ok program) :
    let ending := conclude (Run.result (Run.executeBlock (limits.setting system) program.body)
      (program.start files))
    execute system limits source files =
      .ok (ending.1, { ending.2 with
        trace := #[.parsed program.body.length] ++ ending.2.trace }) := by
  intro ending
  have hending : ending = program.runFrom (limits.setting system) (.fresh files) :=
    (runFrom_eq _ program (.fresh files)).symm
  rw [hending, execute, executeOn, h]
  rfl

open Counting in
/-- A loop that counts from `a` in steps of `c` as long as the number is below `b` makes exactly
the least number of iterations that brings it there. It ends with the number exact if its limit
allows that many, and otherwise is stopped at the limit, after as many iterations as it allows. -/
theorem Program.execute_counts {σ : Type} (system : FileSystem σ) (limits : Limits) (files : σ)
    {first bound step : String} {a b c : Nat} (ha : Number.Denotes first.toList a)
    (hb : Number.Denotes bound.toList b) (hc : Number.Denotes step.toList c) (hstep : 1 ≤ c)
    (hstart : a ≤ 2 ^ 53) (hbound : b + c ≤ 2 ^ 53) :
    let p := 11 + first.length
    let q := p + 9 + bound.length
    ∃ k, IsLeast {k | b ≤ a + k * c} k ∧
      (∀ n ≤ k, Number.exact (Float.ofNat (a + n * c)) = (a + n * c : Nat)) ∧
      ((∀ limit ∈ limits.maxIterations, k ≤ limit) →
        ∃ m, execute system limits (source first bound step) files = .ok (.finished, m) ∧
          m.environment = Environment.empty.insert "i" (.number (Float.ofNat (a + k * c))) ∧
          m.trace.toList = opening a ++ course a b c p q k false ++
            [.loopFinished k ⟨1, p + 1⟩, .finished 1]) ∧
      ∀ limit ∈ limits.maxIterations, limit < k →
        ∃ m, execute system limits (source first bound step) files =
            .ok (.aborted (.loopLimit limit ⟨1, p + 1⟩), m) ∧
          m.environment = Environment.empty.insert "i" (.number (Float.ofNat (a + limit * c))) ∧
          m.trace.toList = opening a ++ course a b c p q limit true ++
            [.loopLimitReached limit ⟨1, p + 1⟩, .aborted (.loopLimit limit ⟨1, p + 1⟩)] := by
  intro p q
  have hreaches : ∃ k, b ≤ a + k * c :=
    ⟨b, le_trans (Nat.le_mul_of_pos_right b hstep) (Nat.le_add_left _ _)⟩
  obtain ⟨k, hk⟩ : ∃ k, IsLeast {k | b ≤ a + k * c} k :=
    ⟨Nat.find hreaches, Nat.find_spec hreaches, fun _ => Nat.find_min' hreaches⟩
  have hkb : k ≤ b :=
    hk.2 (le_trans (Nat.le_mul_of_pos_right b hstep) (Nat.le_add_left _ _))
  have hb' : b ≤ 2 ^ 53 := by omega
  have hrun := execute_of_source system limits files
    (ofSource_source ha hb hc (p := p) (q := q) rfl rfl)
  rw [result_program] at hrun
  have hi : Holds a ((((program a b c p q).start files).entered ⟨1, 3⟩).assigned "i"
    (.number (Float.ofNat a))) := rfl
  refine ⟨k, hk, ?_, fun hlimit => ?_, fun limit hmax hlt => ?_⟩
  · exact fun n hn => Number.exact_ofNat (le_of_isLeast hk hstart hbound hn)
  · obtain ⟨m', hloop, hm', htrace⟩ := result_loop_finished (s := limits.setting system) (p := p)
      (q := q) hk hstart hbound hi hlimit (lt_patience hkb hb' hlimit)
    rw [hloop] at hrun
    refine ⟨_, hrun, hm', ?_⟩
    simp [conclude, htrace, hm'.size, opening, program, start, Machine.assigned, Machine.entered,
      Machine.fresh]
  · have hallowed : ∀ other ∈ limits.maxIterations, limit ≤ other :=
      fun other hother => (Option.some.inj (hmax.symm.trans hother)).le
    obtain ⟨m', hloop, hm', htrace⟩ := result_loop_limited (s := limits.setting system) (p := p)
      (q := q) hk hbound hi hmax hlt (lt_patience (by omega) hb' hallowed)
    rw [hloop] at hrun
    refine ⟨_, hrun, hm', ?_⟩
    simp [conclude, htrace, opening, program, start, Machine.assigned, Machine.entered,
      Machine.fresh]

/-- Up to seven in steps of two: four iterations, of which a limit of three cuts off the last. -/
theorem Program.execute_counts_to_seven :
    (∃ m, execute Scripted.fileSystem {} (Counting.source "0" "007" "2")
        (Scripted.ofResponses []) = .ok (.finished, m) ∧
      m.environment.get? "i" = some (.number (Float.ofNat 8))) ∧
    ∃ m, execute Scripted.fileSystem { maxIterations := some 3 } (Counting.source "0" "007" "2")
        (Scripted.ofResponses []) = .ok (.aborted (.loopLimit 3 ⟨1, 13⟩), m) ∧
      m.environment.get? "i" = some (.number (Float.ofNat 6)) := by
  have hfirst : Number.Denotes "0".toList 0 := ⟨by decide, by decide, by decide⟩
  have hbound : Number.Denotes "007".toList 7 := ⟨by decide, by decide, by decide⟩
  have hstep : Number.Denotes "2".toList 2 := ⟨by decide, by decide, by decide⟩
  have hrun (limits : Limits) := execute_counts Scripted.fileSystem limits
    (Scripted.ofResponses []) hfirst hbound hstep (by decide) (by decide) (by decide)
  have hleast : IsLeast {k | 7 ≤ 0 + k * 2} 4 :=
    ⟨by decide, fun j (hj : 7 ≤ 0 + j * 2) => by omega⟩
  constructor
  · obtain ⟨k, hk, -, hfinished, -⟩ := hrun {}
    obtain rfl := hk.unique hleast
    obtain ⟨m, hm, henvironment, -⟩ := hfinished fun limit hlimit => nomatch hlimit
    exact ⟨m, hm, Counting.Holds.get? henvironment⟩
  · obtain ⟨k, hk, -, -, haborted⟩ := hrun { maxIterations := some 3 }
    obtain rfl := hk.unique hleast
    obtain ⟨m, hm, henvironment, -⟩ := haborted 3 rfl (by decide)
    exact ⟨m, hm, Counting.Holds.get? henvironment⟩

end FileChores
