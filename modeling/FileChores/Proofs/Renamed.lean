import FileChores.Proofs.Program.Assigned

/-!
# Programs with other names

`renamed f` applies `f` to every variable of a tree, where it is read and where it is bound. The
commands keep their names.
-/

namespace FileChores

namespace Expr

mutual

def renamed (f : String → String) : Expr → Expr
  | number value pos => number value pos
  | text content pos => text content pos
  | word name pos => word (f name) pos
  | binary op left right pos => binary op (renamed f left) (renamed f right) pos
  | query command args pos => query command (renamedAll f args) pos

def renamedAll (f : String → String) : List Expr → List Expr
  | [] => []
  | first :: rest => renamed f first :: renamedAll f rest

end

end Expr

def Condition.renamed (f : String → String) (condition : Condition) : Condition :=
  ⟨condition.left.renamed f, condition.op, condition.right.renamed f, condition.pos⟩

namespace Statement

mutual

def renamed (f : String → String) : Statement → Statement
  | declare name value pos => declare (f name) (value.renamed f) pos
  | assign name value pos => assign (f name) (value.renamed f) pos
  | branch condition thenBlock elseBlock pos =>
      branch (condition.renamed f) (renamedBlock f thenBlock) (renamedElse f elseBlock) pos
  | loop condition body pos => loop (condition.renamed f) (renamedBlock f body) pos
  | call command args pos => call command (Expr.renamedAll f args) pos

def renamedBlock (f : String → String) : List Statement → List Statement
  | [] => []
  | first :: rest => renamed f first :: renamedBlock f rest

def renamedElse (f : String → String) : Option (List Statement) → Option (List Statement)
  | none => none
  | some block => some (renamedBlock f block)

end

end Statement

def Program.renamed (f : String → String) (program : Program) : Program :=
  ⟨Statement.renamedBlock f program.body⟩

def replaceName (x y : String) (name : String) : String :=
  if name = x then y else name

/-- The block neither reads nor binds a variable of the name. -/
structure Lacks (block : List Statement) (name : String) : Prop where
  unread : ∀ pos, ¬ (Expr.word name pos).Inside block
  unbound : ¬ Assigns block name

namespace Lacks

variable {name : String} {block block' : List Statement}

theorem of_statements
    (hread : ∀ inner : Statement, inner.Inside block → ∀ e ∈ inner.operands,
      ∀ pos, ¬ (Expr.word name pos).Occurs e)
    (hbind : ∀ inner : Statement, inner.Inside block → inner.target? ≠ some name) :
    Lacks block name where
  unread := by
    rintro pos ⟨inner, hinside, e, he, hoccurs⟩
    exact hread inner hinside e he pos hoccurs
  unbound := by
    rintro ⟨inner, hinside, htarget⟩
    exact hbind inner hinside htarget

theorem of_inside (h : Lacks block name)
    (hsub : ∀ inner : Statement, inner.Inside block' → inner.Inside block) :
    Lacks block' name where
  unread := by
    rintro pos ⟨statement, hinside, hoccurs⟩
    exact h.unread pos ⟨statement, hsub statement hinside, hoccurs⟩
  unbound := by
    rintro ⟨statement, hinside, htarget⟩
    exact h.unbound ⟨statement, hsub statement hinside, htarget⟩

theorem mono (h : Lacks block name) (hsub : block' ⊆ block) : Lacks block' name :=
  h.of_inside fun _ hinside => hinside.mono hsub

theorem operand {statement : Statement} (h : Lacks block name) (hmem : statement ∈ block)
    {e : Expr} (he : e ∈ statement.operands) (pos : Position) : ¬ (Expr.word name pos).Occurs e :=
  fun hoccurs => h.unread pos ⟨statement, .member hmem, e, he, hoccurs⟩

theorem target_ne {statement : Statement} (h : Lacks block name) (hmem : statement ∈ block)
    {target : String} (htarget : statement.target? = some target) : target ≠ name := by
  rintro rfl
  exact h.unbound ⟨statement, .member hmem, htarget⟩

end Lacks

end FileChores
