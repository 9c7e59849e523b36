import Std.Data.ExtTreeMap
import FileChores.Value

/-!
# Environments

The variables of a script, a finite map from names to values, listed by name in ascending order of
characters. Two environments with the same bindings are equal.
-/

namespace FileChores

structure Environment where
  bindings : Std.ExtTreeMap String Value

namespace Environment

def empty : Environment := ⟨∅⟩

def get? (env : Environment) (name : String) : Option Value := env.bindings[name]?

def contains (env : Environment) (name : String) : Bool := env.bindings.contains name

def insert (env : Environment) (name : String) (value : Value) : Environment :=
  ⟨env.bindings.insert name value⟩

/-- Binds a name and gives back what it was bound to before. -/
def set (env : Environment) (name : String) (value : Value) : Option Value × Environment :=
  (env.get? name, env.insert name value)

def size (env : Environment) : Nat := env.bindings.size

def isEmpty (env : Environment) : Bool := env.bindings.isEmpty

def toList (env : Environment) : List (String × Value) := env.bindings.toList

@[simp] theorem get?_empty (name : String) : empty.get? name = none := by
  simp [empty, get?]

theorem get?_insert (env : Environment) (name other : String) (value : Value) :
    (env.insert name value).get? other = if name = other then some value else env.get? other := by
  simp [get?, insert, Std.ExtTreeMap.getElem?_insert]

theorem contains_iff {env : Environment} {name : String} :
    env.contains name = true ↔ env.get? name ≠ none := by
  rw [contains, get?, Std.ExtTreeMap.contains_eq_isSome_getElem?, Option.isSome_iff_ne_none]

theorem mem_toList_iff {env : Environment} {name : String} {value : Value} :
    (name, value) ∈ env.toList ↔ env.get? name = some value :=
  Std.ExtTreeMap.mem_toList_iff_getElem?_eq_some

@[ext] theorem ext {a b : Environment} (h : ∀ name, a.get? name = b.get? name) : a = b := by
  obtain ⟨a⟩ := a
  obtain ⟨b⟩ := b
  exact congrArg mk (Std.ExtTreeMap.ext_getElem? h)

end Environment

end FileChores
