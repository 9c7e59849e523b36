import FileChores.Proofs.Program.Undeclared

/-!
# The names a program assigns to

Declarations and assignments bind names, and nothing else in a program does.
-/

namespace FileChores

def Statement.target? : Statement → Option String
  | declare name _ _ | assign name _ _ => some name
  | branch .. | loop .. | call .. => none

def Assigns (block : List Statement) (name : String) : Prop :=
  ∃ statement : Statement, statement.Inside block ∧ statement.target? = some name

def AssignsOnly (allowed : String → Prop) (block : List Statement) : Prop :=
  ∀ name, Assigns block name → allowed name

namespace AssignsOnly

variable {allowed : String → Prop} {block block' : List Statement}

theorem of_inside (h : AssignsOnly allowed block)
    (hsub : ∀ inner : Statement, inner.Inside block' → inner.Inside block) :
    AssignsOnly allowed block' := by
  rintro name ⟨statement, hinside, htarget⟩
  exact h name ⟨statement, hsub statement hinside, htarget⟩

theorem mono (h : AssignsOnly allowed block) (hsub : block' ⊆ block) :
    AssignsOnly allowed block' :=
  h.of_inside fun _ hinside => hinside.mono hsub

theorem target {statement : Statement} (h : AssignsOnly allowed block)
    (hmem : statement ∈ block) {name : String} (htarget : statement.target? = some name) :
    allowed name :=
  h name ⟨statement, .member hmem, htarget⟩

end AssignsOnly

end FileChores
