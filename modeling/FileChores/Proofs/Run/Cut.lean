import FileChores.Proofs.Run.Recorded

/-!
# Runs that are cut short

Under a smaller limit, or with less patience, a run is the same run or stops in a loop. When it
stops, what it had printed and asked by then is the beginning of what the other run prints and asks.
-/

namespace FileChores

/-- No limit is above every number. -/
def Limits.Tighter (limit limit' : Option Nat) : Prop :=
  ∀ n' ∈ limit', ∃ n ∈ limit, n ≤ n'

namespace Run

variable {σ : Type} {α β : Type}

/-- What the later machine has printed and asked begins with what the earlier one had. -/
def Extends (early late : Machine (σ × List Request)) : Prop :=
  early.terminal.lines.toList <+: late.terminal.lines.toList ∧ early.files.2 <+: late.files.2

theorem Extends.refl (m : Machine (σ × List Request)) : Extends m m :=
  ⟨List.prefix_rfl, List.prefix_rfl⟩

theorem Extends.trans {a b c : Machine (σ × List Request)} (hab : Extends a b)
    (hbc : Extends b c) : Extends a c :=
  ⟨hab.1.trans hbc.1, hab.2.trans hbc.2⟩

def Grows (x : Run (σ × List Request) α) : Prop :=
  ∀ m, Extends m (result x m).2

/-- The first run is the second, or a beginning of it that ends in a stopped loop. -/
structure Cut (x y : Run (σ × List Request) α) : Prop where
  grows : Grows y
  same_or_cut : ∀ m, result x m = result y m ∨
    ∃ halt m', result x m = (.error halt, m') ∧ halt.isCut = true ∧ Extends m' (result y m).2

theorem Grows.bind {x : Run (σ × List Request) α} {f : α → Run (σ × List Request) β}
    (hx : Grows x) (hf : ∀ a, Grows (f a)) : Grows (x >>= f) := by
  intro m
  have hm := hx m
  rcases h : result x m with ⟨_ | a, m'⟩ <;> rw [h] at hm
  · rw [result_bind_error h]
    exact hm
  · rw [result_bind_ok h]
    exact hm.trans (hf a m')

theorem Cut.refl {x : Run (σ × List Request) α} (h : Grows x) : Cut x x :=
  ⟨h, fun _ => .inl rfl⟩

theorem Cut.bind {x y : Run (σ × List Request) α} {f g : α → Run (σ × List Request) β}
    (h : Cut x y) (hf : ∀ a, Cut (f a) (g a)) : Cut (x >>= f) (y >>= g) where
  grows := h.grows.bind fun a => (hf a).grows
  same_or_cut m := by
    rcases h.same_or_cut m with hsame | ⟨halt, m', hx, hhalt, hextends⟩
    · rcases hy : result y m with ⟨halt | a, m'⟩ <;> rw [hy] at hsame
      · exact .inl (by rw [result_bind_error hsame, result_bind_error hy])
      · rw [result_bind_ok hsame, result_bind_ok hy]
        exact (hf a).same_or_cut m'
    · refine .inr ⟨halt, m', result_bind_error hx f, hhalt, ?_⟩
      rcases hy : result y m with ⟨halt' | a, m''⟩ <;> rw [hy] at hextends
      · rw [result_bind_error hy]
        exact hextends
      · rw [result_bind_ok hy]
        exact hextends.trans ((hf a).grows m'')

theorem grows_of_unchanged {x : Run (σ × List Request) α}
    (h : ∀ m, (result x m).2.terminal = m.terminal ∧ (result x m).2.files = m.files) : Grows x := by
  intro m
  rw [Extends, (h m).1, (h m).2]
  exact ⟨List.prefix_rfl, List.prefix_rfl⟩

theorem grows_push {x : Run (σ × List Request) α} (line : Line)
    (h : ∀ m, (result x m).2.terminal = m.terminal.push line ∧ (result x m).2.files = m.files) :
    Grows x := by
  intro m
  rw [Extends, (h m).1, (h m).2, Terminal.push, Array.toList_push]
  exact ⟨List.prefix_append _ _, List.prefix_rfl⟩

theorem grows_ask (system : FileSystem σ) (request : Request) :
    Grows (ask system.recorded request) :=
  fun _ => ⟨List.prefix_rfl, List.prefix_append _ _⟩

variable {system : FileSystem σ} {limits limits' : Limits} {patience patience' : Nat}

theorem cut_congruence (hwait : limits.maxWait = limits'.maxWait) :
    Congruence id Cut (⟨system.recorded, limits, patience⟩ : Setting (σ × List Request))
      ⟨system.recorded, limits', patience'⟩ where
  maxWait := hwait
  pure _ := .refl (grows_of_unchanged fun _ => ⟨rfl, rfl⟩)
  bind := Cut.bind
  fault _ := by
    rw [Fault.moved_id]
    exact .refl (grows_of_unchanged fun _ => ⟨rfl, rfl⟩)
  record _ _ := by
    rw [Event.moved_id]
    exact .refl (grows_of_unchanged fun _ => ⟨rfl, rfl⟩)
  print text pos := .refl (grows_push ⟨text, .output, pos⟩ fun _ => ⟨rfl, rfl⟩)
  printError text pos := .refl (grows_push ⟨text, .errors, pos⟩ fun _ => ⟨rfl, rfl⟩)
  lookup _ := .refl (grows_of_unchanged fun _ => ⟨rfl, rfl⟩)
  assign _ _ := .refl (grows_of_unchanged fun _ => ⟨rfl, rfl⟩)
  enter _ := .refl (grows_of_unchanged fun _ => ⟨rfl, rfl⟩)
  ask request := .refl (grows_ask system request)

theorem grows_checkLimit (limit : Option Nat) (pos : Position) (done : Nat) :
    Grows (checkLimit limit pos done : Run (σ × List Request) Unit) := by
  apply grows_of_unchanged
  intro m
  rcases limit_le_or_lt limit done with ⟨n, rfl, h⟩ | h
  · rw [checkLimit_of_le pos h]
    exact ⟨rfl, rfl⟩
  · rw [checkLimit_of_lt pos h]
    exact ⟨rfl, rfl⟩

theorem cut_checkLimit {limit limit' : Option Nat} (htighter : Limits.Tighter limit limit')
    (pos : Position) (done : Nat) :
    Cut (checkLimit limit pos done : Run (σ × List Request) Unit) (checkLimit limit' pos done) := by
  refine ⟨grows_checkLimit limit' pos done, fun m => ?_⟩
  rcases limit_le_or_lt limit done with ⟨n, rfl, h⟩ | h
  · exact .inr ⟨_, _, checkLimit_of_le pos h m, rfl, grows_checkLimit limit' pos done m⟩
  · have h' : ∀ n' ∈ limit', done < n' := by
      intro n' hn'
      obtain ⟨n, hn, hle⟩ := htighter n' hn'
      exact Nat.lt_of_lt_of_le (h n hn) hle
    rw [checkLimit_of_lt pos h, checkLimit_of_lt pos h']
    exact .inl rfl

theorem grows_iterate (limit : Option Nat) (pos : Position)
    {condition : Run (σ × List Request) Bool} {body : Run (σ × List Request) Unit}
    (hcondition : Grows condition) (hbody : Grows body) (patience done : Nat) :
    Grows (iterate limit pos condition body patience done) := by
  induction patience generalizing done with
  | zero => exact grows_of_unchanged fun _ => ⟨rfl, rfl⟩
  | succ patience ih =>
      unfold iterate
      apply hcondition.bind
      intro result
      cases result with
      | true =>
          exact (grows_checkLimit limit pos done).bind fun _ => hbody.bind fun _ => ih (done + 1)
      | false => exact grows_of_unchanged fun _ => ⟨rfl, rfl⟩

theorem cut_iterate {limit limit' : Option Nat} (htighter : Limits.Tighter limit limit')
    (pos : Position) {condition condition' : Run (σ × List Request) Bool}
    {body body' : Run (σ × List Request) Unit} (hcondition : Cut condition condition')
    (hbody : Cut body body') {patience patience' : Nat} (hpatience : patience ≤ patience')
    (done : Nat) :
    Cut (iterate limit pos condition body patience done)
      (iterate limit' pos condition' body' patience' done) := by
  induction patience generalizing patience' done with
  | zero =>
      have hgrows := grows_iterate limit' pos hcondition.grows hbody.grows patience' done
      exact ⟨hgrows, fun m => .inr ⟨.unfinished, m, rfl, rfl, hgrows m⟩⟩
  | succ patience ih =>
      obtain ⟨patience', rfl⟩ : ∃ k, patience' = k + 1 := ⟨patience' - 1, by omega⟩
      rw [iterate, iterate]
      apply hcondition.bind
      intro result
      cases result with
      | true =>
          refine (cut_checkLimit htighter pos done).bind fun _ => hbody.bind fun _ => ?_
          exact ih (by omega) (done + 1)
      | false => exact .refl (grows_of_unchanged fun _ => ⟨rfl, rfl⟩)

theorem cut_executeBlock (hwait : limits.maxWait = limits'.maxWait)
    (htighter : Limits.Tighter limits.maxIterations limits'.maxIterations)
    (hpatience : patience ≤ patience') (block : Block) :
    Cut (executeBlock (⟨system.recorded, limits, patience⟩ : Setting (σ × List Request)) block)
      (executeBlock ⟨system.recorded, limits', patience'⟩ block) :=
  (cut_congruence hwait).executeBlock
    (fun pos _ _ _ _ hcondition hbody => cut_iterate htighter pos hcondition hbody hpatience 0)
    block

end Run

end FileChores
