import FileChores.Proofs.Program.Nodes

/-!
# Programs without declarations

A declaration says what an assignment says. Two programs that differ in which of the two they use,
and in where these stand, are the same once every declaration is an assignment at the start of the
script. Only the name of a command can be declared and not assigned to.
-/

namespace FileChores

namespace Statement

mutual

def undeclared : Statement → Statement
  | declare name value _ | assign name value _ => assign name value .start
  | branch condition thenBlock elseBlock pos =>
      branch condition (undeclaredBlock thenBlock) (undeclaredElse elseBlock) pos
  | loop condition body pos => loop condition (undeclaredBlock body) pos
  | call command args pos => call command args pos

def undeclaredBlock : List Statement → List Statement
  | [] => []
  | first :: rest => undeclared first :: undeclaredBlock rest

def undeclaredElse : Option (List Statement) → Option (List Statement)
  | none => none
  | some block => some (undeclaredBlock block)

end

theorem Inside.of_cons {inner first : Statement} {rest : List Statement}
    (h : inner.Inside (first :: rest)) : inner.Inside [first] ∨ inner.Inside rest := by
  cases h with
  | member hmem =>
      rcases List.mem_cons.1 hmem with rfl | hmem
      · exact .inl (.member (.head _))
      · exact .inr (.member hmem)
  | thenBlock hmem hinner =>
      rcases List.mem_cons.1 hmem with rfl | hmem
      · exact .inl (.thenBlock (.head _) hinner)
      · exact .inr (.thenBlock hmem hinner)
  | elseBlock hmem hinner =>
      rcases List.mem_cons.1 hmem with rfl | hmem
      · exact .inl (.elseBlock (.head _) hinner)
      · exact .inr (.elseBlock hmem hinner)
  | body hmem hinner =>
      rcases List.mem_cons.1 hmem with rfl | hmem
      · exact .inl (.body (.head _) hinner)
      · exact .inr (.body hmem hinner)

end Statement

/-- No declaration in the block, at any depth, is of the name of a command. -/
def DeclaresFree (block : List Statement) : Prop :=
  ∀ name value pos, (Statement.declare name value pos).Inside block →
    ∀ command : Command, command.name ≠ name

namespace DeclaresFree

variable {name : String} {value : Expr} {condition : Condition} {args : List Expr}
  {command : Command} {pos : Position} {block body thenBlock rest : List Statement}
  {elseBlock : Option (List Statement)} {first : Statement}

theorem nil : DeclaresFree [] :=
  fun _ _ _ h => absurd h (Statement.not_inside_nil _)

theorem cons_iff : DeclaresFree (first :: rest) ↔ DeclaresFree [first] ∧ DeclaresFree rest := by
  constructor
  · intro h
    exact ⟨fun name value pos hinside => h name value pos (hinside.mono (by simp)),
      fun name value pos hinside => h name value pos (hinside.mono (List.subset_cons_self _ _))⟩
  · rintro ⟨hfirst, hrest⟩ name value pos hinside
    exact hinside.of_cons.elim (hfirst name value pos) (hrest name value pos)

theorem declare_iff :
    DeclaresFree [.declare name value pos] ↔ ∀ command : Command, command.name ≠ name := by
  constructor
  · exact fun h => h name value pos (.member (.head _))
  · rintro h name' value' pos' (hmem | ⟨hmem, -⟩ | ⟨hmem, -⟩ | ⟨hmem, -⟩) <;>
      cases List.mem_singleton.1 hmem
    exact h

theorem assign : DeclaresFree [.assign name value pos] := by
  rintro name' value' pos' (hmem | ⟨hmem, -⟩ | ⟨hmem, -⟩ | ⟨hmem, -⟩) <;>
    cases List.mem_singleton.1 hmem

theorem call : DeclaresFree [.call command args pos] := by
  rintro name' value' pos' (hmem | ⟨hmem, -⟩ | ⟨hmem, -⟩ | ⟨hmem, -⟩) <;>
    cases List.mem_singleton.1 hmem

theorem branch_iff : DeclaresFree [.branch condition thenBlock elseBlock pos] ↔
    DeclaresFree thenBlock ∧ ∀ block ∈ elseBlock, DeclaresFree block := by
  constructor
  · intro h
    refine ⟨fun name value pos hinside => h name value pos (.thenBlock (.head _) hinside), ?_⟩
    rintro block rfl name value pos hinside
    exact h name value pos (.elseBlock (.head _) hinside)
  · rintro ⟨hthen, helse⟩ name' value' pos'
      (hmem | ⟨hmem, hinner⟩ | ⟨hmem, hinner⟩ | ⟨hmem, -⟩) <;> cases List.mem_singleton.1 hmem
    · exact hthen _ _ _ hinner
    · exact helse _ rfl _ _ _ hinner

theorem loop_iff : DeclaresFree [.loop condition body pos] ↔ DeclaresFree body := by
  constructor
  · exact fun h name value pos hinside => h name value pos (.body (.head _) hinside)
  · rintro h name' value' pos' (hmem | ⟨hmem, -⟩ | ⟨hmem, -⟩ | ⟨hmem, hinner⟩) <;>
      cases List.mem_singleton.1 hmem
    exact h _ _ _ hinner

end DeclaresFree

end FileChores
