import Mathlib.Data.List.Dedup
import Mathlib.Data.List.Induction
import FileChores.Environment
import FileChores.Proofs.Text.Ascending

/-!
# What variables remember

The variables after any steps are told by the steps since they were last cleared: a name is bound
to the value that it was set to last. A table that keeps the bindings in no order of its own lists
the same once it is sorted.
-/

namespace FileChores.Environment

inductive Step
  | set (name : String) (value : Value)
  | get (name : String)
  | contains (name : String)
  | clear

namespace Step

abbrev Reply : Step → Type
  | set .. | get _ => Option Value
  | contains _ => Bool
  | clear => Unit

def take : (step : Step) → Environment → step.Reply × Environment
  | set name value, env => env.set name value
  | get name, env => (env.get? name, env)
  | contains name, env => (env.contains name, env)
  | clear, _ => ((), .empty)

def isClear : Step → Bool
  | clear => true
  | _ => false

def binding? : Step → Option (String × Value)
  | set name value => some (name, value)
  | _ => none

end Step

def after (steps : List Step) : Environment :=
  steps.foldl (fun env step => (step.take env).2) .empty

/-- The bindings made since the last clear, the latest first. -/
def made (steps : List Step) : List (String × Value) :=
  (steps.reverse.takeWhile (!·.isClear)).filterMap Step.binding?

/-- The value that a name was set to last, if it has been set since the last clear. -/
def lastSet (steps : List Step) (name : String) : Option Value :=
  (made steps).lookup name

def namesSet (steps : List Step) : List String :=
  ((made steps).map Prod.fst).dedup

/-- What a step is told of the steps before it. -/
def Step.recall (steps : List Step) : (step : Step) → step.Reply
  | set name _ | get name => lastSet steps name
  | contains name => (lastSet steps name).isSome
  | clear => ()

/-! ## One step more -/

theorem after_snoc (steps : List Step) (step : Step) :
    after (steps ++ [step]) = (step.take (after steps)).2 := by
  rw [after, List.foldl_append]
  rfl

theorem made_snoc (steps : List Step) (step : Step) :
    made (steps ++ [step]) =
      if step.isClear then [] else step.binding?.toList ++ made steps := by
  rw [made, List.reverse_append, List.reverse_singleton, List.singleton_append,
    List.takeWhile_cons]
  cases step <;> rfl

theorem get?_take (step : Step) (env : Environment) (name : String) :
    (step.take env).2.get? name =
      match step with
      | .set other value => if other = name then some value else env.get? name
      | .clear => none
      | _ => env.get? name := by
  cases step with
  | set other value => exact get?_insert env other name value
  | clear => exact get?_empty name
  | get | contains => rfl

theorem lastSet_snoc (steps : List Step) (step : Step) (name : String) :
    lastSet (steps ++ [step]) name =
      match step with
      | .set other value => if other = name then some value else lastSet steps name
      | .clear => none
      | _ => lastSet steps name := by
  rw [lastSet, made_snoc]
  cases step with
  | set other value =>
      show ((other, value) :: made steps).lookup name = _
      rw [List.lookup_cons]
      by_cases h : other = name
      · simp [h]
      · simp [h, beq_eq_false_iff_ne.2 (Ne.symm h), lastSet]
  | clear | get | contains => rfl

theorem get?_after (steps : List Step) (name : String) :
    (after steps).get? name = lastSet steps name := by
  induction steps using List.reverseRecOn with
  | nil => exact get?_empty name
  | append_singleton steps step ih => rw [after_snoc, get?_take, lastSet_snoc, ih]

theorem take_after (steps : List Step) (step : Step) :
    (step.take (after steps)).1 = step.recall steps := by
  cases step with
  | set name value => exact get?_after steps name
  | get name => exact get?_after steps name
  | contains name =>
      show (after steps).contains name = (lastSet steps name).isSome
      rw [Bool.eq_iff_iff, contains_iff, get?_after, Option.isSome_iff_ne_none]
  | clear => rfl

/-! ## Tables without an order -/

structure Tabulated (env : Environment) (table : List (String × Value)) : Prop where
  once : (table.map Prod.fst).Nodup
  mem_iff : ∀ name value, (name, value) ∈ table ↔ env.get? name = some value

/-- The tables that may be left by some steps. A value takes the place of the one before it, and
the order may be another one each time. -/
inductive Leaves : List Step → List (String × Value) → Prop
  | new : Leaves [] []
  | set {steps : List Step} {table table' : List (String × Value)} {name : String} {value : Value} :
      Leaves steps table → table'.Perm ((name, value) :: table.filter (·.1 ≠ name)) →
      Leaves (steps ++ [.set name value]) table'
  | get {steps : List Step} {table : List (String × Value)} (name : String) :
      Leaves steps table → Leaves (steps ++ [.get name]) table
  | contains {steps : List Step} {table : List (String × Value)} (name : String) :
      Leaves steps table → Leaves (steps ++ [.contains name]) table
  | clear {steps : List Step} {table : List (String × Value)} :
      Leaves steps table → Leaves (steps ++ [.clear]) []

theorem ascending_toList (env : Environment) : Text.Ascending Prod.fst env.toList :=
  Text.ascending_iff_compare.2 Std.ExtTreeMap.ordered_keys_toList

theorem tabulated_empty : empty.Tabulated [] where
  once := List.nodup_nil
  mem_iff name value := by simp

namespace Tabulated

variable {env : Environment} {table table' : List (String × Value)}

theorem sortBy_eq (h : env.Tabulated table) : Text.sortBy Prod.fst table = env.toList :=
  env.ascending_toList.sortBy_eq_of_mem_iff h.once fun (name, value) =>
    (h.mem_iff name value).trans mem_toList_iff.symm

theorem perm_toList (h : env.Tabulated table) : table.Perm env.toList :=
  h.sortBy_eq ▸ (Text.perm_sortBy Prod.fst table).symm

theorem length_eq (h : env.Tabulated table) : table.length = env.size :=
  h.perm_toList.length_eq.trans Std.ExtTreeMap.length_toList

theorem lookup_eq (h : env.Tabulated table) (name : String) :
    table.lookup name = env.get? name := by
  have hmem (value : Value) (hlookup : table.lookup name = some value) :
      env.get? name = some value := by
    obtain ⟨front, rest, rfl, -⟩ := List.lookup_eq_some_iff.1 hlookup
    exact (h.mem_iff name value).1 (by simp)
  cases hlookup : table.lookup name with
  | some value => rw [hmem value hlookup]
  | none =>
      symm
      by_contra hbound
      obtain ⟨value, hvalue⟩ := Option.ne_none_iff_exists'.1 hbound
      have hkey := List.lookup_eq_none_iff.1 hlookup _ ((h.mem_iff name value).2 hvalue)
      simp at hkey

theorem insert (h : env.Tabulated table) {name : String} {value : Value}
    (hperm : table'.Perm ((name, value) :: table.filter (·.1 ≠ name))) :
    (env.insert name value).Tabulated table' where
  once := by
    refine (hperm.map Prod.fst).nodup_iff.2 (List.nodup_cons.2 ⟨?_, ?_⟩)
    · simp
    · exact h.once.sublist (List.filter_sublist.map Prod.fst)
  mem_iff other found := by
    rw [hperm.mem_iff, List.mem_cons, List.mem_filter, h.mem_iff, get?_insert]
    by_cases hname : name = other
    · subst hname
      simp [eq_comm]
    · simp [hname, Ne.symm hname]

end Tabulated

/-- Whatever order a table has, it holds the bindings. -/
theorem Leaves.tabulated {steps : List Step} {table : List (String × Value)}
    (h : Leaves steps table) : (after steps).Tabulated table := by
  induction h with
  | new => exact tabulated_empty
  | set _ hperm ih =>
      rw [after_snoc]
      exact ih.insert hperm
  | get name _ ih | contains name _ ih =>
      rw [after_snoc]
      exact ih
  | clear =>
      rw [after_snoc]
      exact tabulated_empty

theorem exists_leaves (steps : List Step) : ∃ table, Leaves steps table := by
  induction steps using List.reverseRecOn with
  | nil => exact ⟨[], .new⟩
  | append_singleton steps step ih =>
      obtain ⟨table, h⟩ := ih
      cases step with
      | set name value => exact ⟨_, .set h (.refl _)⟩
      | get name => exact ⟨table, .get name h⟩
      | contains name => exact ⟨table, .contains name h⟩
      | clear => exact ⟨[], .clear h⟩

/-! ## The whole history -/

theorem mem_namesSet_iff {steps : List Step} {name : String} :
    name ∈ namesSet steps ↔ lastSet steps name ≠ none := by
  rw [namesSet, List.mem_dedup, lastSet, ← Option.isSome_iff_ne_none, List.lookup_isSome_iff,
    List.mem_map]
  simp only [beq_iff_eq, @eq_comm _ name]

theorem size_after (steps : List Step) : (after steps).size = (namesSet steps).length := by
  have hnames : (namesSet steps).Perm ((after steps).toList.map Prod.fst) := by
    refine (List.perm_ext_iff_of_nodup (List.nodup_dedup _)
      (ascending_toList _).nodup_keys).2 fun name => ?_
    refine mem_namesSet_iff.trans ?_
    rw [← get?_after, Option.ne_none_iff_exists']
    simp [mem_toList_iff]
  rw [hnames.length_eq, List.length_map]
  exact Std.ExtTreeMap.length_toList.symm

theorem isEmpty_iff {env : Environment} : env.isEmpty = true ↔ env.size = 0 := by
  rw [isEmpty, Std.ExtTreeMap.isEmpty_eq_size_beq_zero, beq_iff_eq]
  rfl

/-- The variables after some steps answer every further step from what was set last, and reading
them changes nothing. They number the names set since the last clear. Their list holds each of these
names once with its last value, in the order of the bytes of the names; it is the sorted form of
every table that the steps may leave, and that of any other steps that leave the same bindings. -/
theorem after_recalls (steps : List Step) :
    (∀ step : Step, (step.take (after steps)).1 = step.recall steps) ∧
    (∀ name, ((Step.get name).take (after steps)).2 = after steps ∧
      ((Step.contains name).take (after steps)).2 = after steps) ∧
    (after steps).size = (namesSet steps).length ∧
    ((after steps).isEmpty = true ↔ (after steps).size = 0) ∧
    Text.Ascending Prod.fst (after steps).toList ∧
    (∀ name value, (name, value) ∈ (after steps).toList ↔ lastSet steps name = some value) ∧
    (∀ steps', (∀ name, (after steps').get? name = (after steps).get? name) →
      (after steps').toList = (after steps).toList) ∧
    (∃ table, Leaves steps table) ∧
    ∀ table, Leaves steps table → Text.sortBy Prod.fst table = (after steps).toList ∧
      table.length = (after steps).size ∧ ∀ name, table.lookup name = lastSet steps name := by
  refine ⟨take_after steps, fun name => ⟨rfl, rfl⟩, size_after steps, isEmpty_iff,
    ascending_toList _, fun name value => ?_, fun steps' h => ?_, exists_leaves steps,
    fun table h => ?_⟩
  · rw [mem_toList_iff, get?_after]
  · rw [Environment.ext h]
  · have htable := h.tabulated
    exact ⟨htable.sortBy_eq, htable.length_eq, fun name => by rw [htable.lookup_eq, get?_after]⟩

/-- Upper case comes before lower case, in whatever order the names were set. -/
theorem after_recalls_two_ways :
    (after [.set "a" (.text "1"), .set "B" (.text "2")]).toList =
        [("B", .text "2"), ("a", .text "1")] ∧
      (after [.set "c" (.text "0"), .clear, .set "B" (.text "2"), .set "a" (.text "0"), .get "B",
        .set "a" (.text "1")]).toList = [("B", .text "2"), ("a", .text "1")] := by
  obtain ⟨-, -, -, -, -, -, hsame, -, htable⟩ :=
    after_recalls [.set "a" (.text "1"), .set "B" (.text "2")]
  have hleaves : Leaves [.set "a" (.text "1"), .set "B" (.text "2")]
      [("B", .text "2"), ("a", .text "1")] :=
    .set (.set .new (.refl _)) (.refl _)
  have hascending : Text.Ascending Prod.fst [("B", Value.text "2"), ("a", Value.text "1")] := by
    rw [Text.ascending_iff_lt]
    decide
  have hlist : (after [.set "a" (.text "1"), .set "B" (.text "2")]).toList =
      [("B", .text "2"), ("a", .text "1")] := by
    rw [← (htable _ hleaves).1]
    exact hascending.sortBy_eq (.refl _)
  refine ⟨hlist, (hsame _ fun name => ?_).trans hlist⟩
  rw [get?_after, get?_after, lastSet, lastSet]
  change [("a", Value.text "1"), ("a", Value.text "0"), ("B", Value.text "2")].lookup name =
    [("B", Value.text "2"), ("a", Value.text "1")].lookup name
  by_cases h : name = "a"
  · subst h
    rfl
  · simp [List.lookup_cons, beq_eq_false_iff_ne.2 h]

end FileChores.Environment
