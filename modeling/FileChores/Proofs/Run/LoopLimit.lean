import FileChores.Proofs.Run.Cut
import FileChores.Proofs.Run.Follows

/-!
# What a limit on loops does

A limit never changes a run, it only cuts it short, and it does so exactly where one execution of a
loop starts an iteration more than the limit.
-/

namespace FileChores

open Run

variable {σ : Type}

def Outcome.isCut : Outcome → Bool
  | finished => false
  | aborted fault => fault.isLoopLimit
  | unfinished => true

namespace Program

def firstPoint (program : Program) (files : σ) : Point σ :=
  ⟨[.statements program.body], program.start files⟩

/-- The point of the run without a limit after `n` steps. -/
def point (system : FileSystem σ) (wait : Option Nat) (program : Program) (files : σ) (n : Nat) :
    Option (Point σ) :=
  Point.after (system.unbounded wait) n (program.firstPoint files)

section

variable (system : FileSystem σ) (program : Program) (files : σ) (wait : Option Nat)

theorem extends_conclude {ending ending' : Except Halt Unit × Machine (σ × List Request)}
    (h : Extends ending.2 ending'.2) : Extends (conclude ending).2 (conclude ending').2 := by
  rwa [Extends, conclude_terminal, conclude_files, conclude_terminal, conclude_files]

/-- Under a tighter limit and with less patience a program runs the same, or stops in a loop. -/
theorem runWith_same_or_cut {limits limits' : Limits} {patience patience' : Nat}
    (hwait : limits.maxWait = limits'.maxWait)
    (htighter : Limits.Tighter limits.maxIterations limits'.maxIterations)
    (hpatience : patience ≤ patience') :
    program.runWith ⟨system.recorded, limits', patience'⟩ (files, []) =
        program.runWith ⟨system.recorded, limits, patience⟩ (files, []) ∨
      (program.runWith ⟨system.recorded, limits, patience⟩ (files, [])).1.isCut = true ∧
        Extends (program.runWith ⟨system.recorded, limits, patience⟩ (files, [])).2
          (program.runWith ⟨system.recorded, limits', patience'⟩ (files, [])).2 := by
  have hcut : Cut (executeBlock ⟨system.recorded, limits, patience⟩ program.body)
      (executeBlock ⟨system.recorded, limits', patience'⟩ program.body) :=
    cut_executeBlock hwait htighter hpatience program.body
  rw [runWith_eq, runWith_eq]
  rcases hcut.same_or_cut (program.start (files, [])) with hsame | ⟨halt, m, hx, hhalt, hextends⟩
  · exact .inl (by rw [hsame])
  · refine .inr ⟨?_, extends_conclude (by rw [hx]; exact hextends)⟩
    rw [hx]
    cases halt with
    | unfinished => rfl
    | fault fault => exact hhalt

theorem ends_points (s : Setting σ) :
    Point.Ends s [] (program.firstPoint files)
      (result (executeBlock s program.body) (program.start files)) := by
  have h := Follows.block s program.body [] (program.start files)
  rwa [Pending.runAll_singleton] at h

/-- Where the first loop starts one iteration more than the limit allows. -/
def ExceedsFirst (limit : Nat) (pos : Position) : Prop :=
  ∃ n p, program.point system wait files n = some p ∧ p.Starts limit pos ∧
    ∀ k < n, ∀ q, program.point system wait files k = some q → ∀ pos', ¬ q.Starts limit pos'

theorem aborted_iff_exceedsFirst (limit n : Nat) (pos : Position) :
    (program.run system ⟨some limit, wait⟩ files).1 = .aborted (.loopLimit n pos) ↔
      n = limit ∧ ExceedsFirst system program files wait limit pos := by
  have hends := ends_points program files ((⟨some limit, wait⟩ : Limits).setting system)
  rw [run, runWith_eq]
  constructor
  · intro h
    obtain ⟨m, hm⟩ := conclude_eq_aborted h
    rw [hm] at hends
    obtain ⟨k, q, hwalk, hstops⟩ := hends
    cases hstops with
    | fault hfault => cases hfault
    | limit hlimit hstarts =>
        cases hlimit
        refine ⟨rfl, k, q, hwalk.after_eq, hstarts, fun j hj r hr => ?_⟩
        exact hwalk.quiet_of_lt hj hr limit rfl
  · rintro ⟨hn, k, p, hp, hstarts, hfirst⟩
    have hloud : ¬ Point.Quiet ((⟨some limit, wait⟩ : Limits).setting system) p :=
      fun hquiet => hquiet limit rfl pos hstarts
    -- No run ends where an iteration starts, and none has points behind its end.
    have hpast : ∀ {j q ending}, Point.Walk (system.unbounded wait)
        (Point.Quiet ((⟨some limit, wait⟩ : Limits).setting system)) j (program.firstPoint files)
          q →
        q.end? (system.unbounded wait) = some ending → False := by
      intro j q ending hwalk hend
      obtain rfl := Nat.le_antisymm (hwalk.le_of_not_quiet hp hloud) (hwalk.le_of_end? hend hp)
      cases hwalk.after_eq.symm.trans hp
      rw [Point.end?_eq_none_of_starts hstarts] at hend
      cases hend
    rcases hr : result _ (program.start files) with ⟨halt | _, m⟩ <;> rw [hr] at hends
    · obtain ⟨j, q, hwalk, hstops⟩ := hends
      cases hstops with
      | fault _ hend => exact (hpast hwalk hend).elim
      | limit hlimit hstarts' =>
          cases hlimit
          have hge : k ≤ j := Nat.le_of_not_lt fun hlt => hfirst j hlt q hwalk.after_eq _ hstarts'
          obtain rfl := Nat.le_antisymm (hwalk.le_of_not_quiet hp hloud) hge
          cases hwalk.after_eq.symm.trans hp
          rw [hn, hstarts.pos_eq hstarts']
          rfl
      | unfinished hlimit _ => exact absurd (hlimit limit rfl) (Nat.not_succ_le_self limit)
    · obtain ⟨j, hwalk⟩ := hends
      exact (hpast hwalk rfl).elim

/-- Without a limit a program ends as its points end, or is given up after as many steps at least
as the setting has patience. -/
theorem runWith_points (patience : Nat) :
    (∃ n p, program.point system wait files n = some p ∧
      (p.end? (system.unbounded wait)).map conclude =
        some (program.runWith ⟨system, ⟨none, wait⟩, patience⟩ files)) ∨
    (program.runWith ⟨system, ⟨none, wait⟩, patience⟩ files).1 = .unfinished ∧
      ∃ n p, patience ≤ n ∧ program.point system wait files n = some p := by
  have hends := ends_points program files ⟨system, ⟨none, wait⟩, patience⟩
  rw [runWith_eq]
  rcases hr : result _ (program.start files) with ⟨halt | _, m⟩ <;> rw [hr] at hends
  · obtain ⟨n, q, hwalk, hstops⟩ := hends
    cases hstops with
    | fault _ hend => exact .inl ⟨n, q, hwalk.after_eq, congrArg (Option.map conclude) hend⟩
    | limit hlimit _ => cases hlimit
    | unfinished _ htasks =>
        refine .inr ⟨rfl, n, q, ?_, hwalk.after_eq⟩
        have hmade := Point.made_after (n := 0) hwalk.after_eq (by simp [firstPoint, Pending.made])
        rw [htasks] at hmade
        simpa [Pending.made] using hmade _ (.head _)
  · obtain ⟨n, hwalk⟩ := hends
    exact .inl ⟨n, _, hwalk.after_eq, rfl⟩

/-- A limit on loops cuts a run and changes nothing else, and it cuts the run where the first loop
exceeds it. -/
theorem run_limit_only_cuts :
    (∀ limits, program.run system limits files =
      ((program.run system.recorded limits (files, [])).1,
        (program.run system.recorded limits (files, [])).2.unrecorded)) ∧
    (∀ limit limit' patience, Limits.Tighter limit limit' →
      Limits.patience ⟨limit, wait⟩ ≤ patience →
      ((program.run system.recorded ⟨limit, wait⟩ (files, [])).1.isCut = false →
        program.runWith ⟨system.recorded, ⟨limit', wait⟩, patience⟩ (files, []) =
          program.run system.recorded ⟨limit, wait⟩ (files, [])) ∧
      ((program.run system.recorded ⟨limit, wait⟩ (files, [])).1.isCut = true →
        Extends (program.run system.recorded ⟨limit, wait⟩ (files, [])).2
          (program.runWith ⟨system.recorded, ⟨limit', wait⟩, patience⟩ (files, [])).2)) ∧
    (∀ limit n pos, (program.run system ⟨some limit, wait⟩ files).1 = .aborted (.loopLimit n pos) ↔
      n = limit ∧ ExceedsFirst system program files wait limit pos) ∧
    ∀ patience, (∃ n p, program.point system wait files n = some p ∧
        (p.end? (system.unbounded wait)).map conclude =
          some (program.runWith ⟨system, ⟨none, wait⟩, patience⟩ files)) ∨
      (program.runWith ⟨system, ⟨none, wait⟩, patience⟩ files).1 = .unfinished ∧
        ∃ n p, patience ≤ n ∧ program.point system wait files n = some p := by
  refine ⟨fun limits => run_recorded system limits program files, ?_,
    aborted_iff_exceedsFirst system program files wait, runWith_points system program files wait⟩
  intro limit limit' patience htighter hpatience
  have hwait : (⟨limit, wait⟩ : Limits).maxWait = (⟨limit', wait⟩ : Limits).maxWait := rfl
  rcases runWith_same_or_cut system program files hwait htighter hpatience with
    hsame | ⟨hcut, hextends⟩
  · exact ⟨fun _ => hsame, fun _ => hsame ▸ Extends.refl _⟩
  · refine ⟨fun huncut => ?_, fun _ => hextends⟩
    exact Bool.noConfusion (hcut.symm.trans huncut)

end

end Program

end FileChores
