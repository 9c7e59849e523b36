import FileChores.Proofs.Grammar.Script
import FileChores.Proofs.Program.Undeclared

/-!
# Queries of a script

Where a script calls a command for its value, the command is one that has a value.
-/

namespace FileChores

namespace Expr

theorem occurs_iff {node e : Expr} :
    node.Occurs e ↔ (∃ part ∈ e.parts, node.Occurs part) ∨ node = e := by
  constructor
  · rintro (_ | ⟨hpart, hinside⟩)
    · exact .inr rfl
    · exact .inl ⟨_, hpart, hinside⟩
  · rintro (⟨part, hpart, hinside⟩ | rfl)
    · exact .part hpart hinside
    · exact .here

/-- Every command that the expression calls has a value. -/
def Queries (e : Expr) : Prop :=
  e.CallsAt fun command _ => command.isQuery = true

theorem Queries.of_parts {e : Expr}
    (hroot : ∀ command args pos, e = .query command args pos → command.isQuery = true)
    (hparts : ∀ part ∈ e.parts, part.Queries) : e.Queries := by
  intro command args pos hoccurs
  rcases occurs_iff.1 hoccurs with ⟨part, hpart, hinside⟩ | rfl
  · exact hparts part hpart command args pos hinside
  · exact hroot command args pos rfl

end Expr

namespace Grammar

mutual

theorem Primary.queries (d : Primary) : d.tree.Queries := by
  cases d with
  | number value pos => exact .of_parts (by simp) (by simp [FileChores.Expr.parts])
  | text content pos => exact .of_parts (by simp) (by simp [FileChores.Expr.parts])
  | word name pos plain => exact .of_parts (by simp) (by simp [FileChores.Expr.parts])
  | query command isQuery pos args =>
      refine .of_parts ?_ args.queries
      rintro _ _ _ ⟨⟩
      exact isQuery

theorem Call.queries (d : Call) : ∀ e ∈ d.trees, e.Queries := by
  cases d with
  | empty opening closing => exact fun _ h => absurd h List.not_mem_nil
  | args opening first more => exact List.forall_mem_cons.2 ⟨first.queries, more.queries⟩

theorem Arguments.queries (d : Arguments) : ∀ e ∈ d.trees, e.Queries := by
  cases d with
  | close closing => exact fun _ h => absurd h List.not_mem_nil
  | comma pos next more => exact List.forall_mem_cons.2 ⟨next.queries, more.queries⟩

theorem Expr.queries (d : Expr) : d.tree.Queries := by
  cases d with
  | mk first chain => exact chain.queries first.queries

theorem Chain.queries (d : Chain) {left : FileChores.Expr} (hleft : left.Queries) :
    (d.tree left).Queries := by
  cases d with
  | done => exact hleft
  | link op pos next more =>
      refine more.queries (.of_parts (by simp) ?_)
      exact List.forall_mem_cons.2 ⟨hleft, List.forall_mem_singleton.2 next.queries⟩

end

mutual

theorem Statement.queries (d : Statement) {statement : FileChores.Statement}
    (h : statement.Inside [d.tree]) : ∀ e ∈ statement.operands, e.Queries := by
  rcases h with h | ⟨h, hinside⟩ | ⟨h, hinside⟩ | ⟨h, hinside⟩
  · obtain rfl := List.mem_singleton.1 h
    cases d with
    | declare pos name namePos signPos value => exact List.forall_mem_singleton.2 value.queries
    | assign name pos free signPos value => exact List.forall_mem_singleton.2 value.queries
    | branch pos condition thenBlock elseBlock =>
        exact List.forall_mem_cons.2
          ⟨condition.left.queries, List.forall_mem_singleton.2 condition.right.queries⟩
    | loop pos condition body =>
        exact List.forall_mem_cons.2
          ⟨condition.left.queries, List.forall_mem_singleton.2 condition.right.queries⟩
    | call command pos args => exact args.queries
  · cases d with
    | branch pos condition thenBlock elseBlock =>
        cases List.mem_singleton.1 h
        exact thenBlock.queries hinside
    | _ => cases List.mem_singleton.1 h
  · cases d with
    | branch pos condition thenBlock elseBlock =>
        have helse := (FileChores.Statement.branch.inj (List.mem_singleton.1 h)).2.2.1
        exact elseBlock.queries helse.symm hinside
    | _ => cases List.mem_singleton.1 h
  · cases d with
    | loop pos condition body =>
        cases List.mem_singleton.1 h
        exact body.queries hinside
    | _ => cases List.mem_singleton.1 h

theorem Else.queries (d : Else) {block : FileChores.Block} (hblock : d.trees? = some block)
    {statement : FileChores.Statement} (h : statement.Inside block) :
    ∀ e ∈ statement.operands, e.Queries := by
  cases d with
  | none => cases hblock
  | block pos inner =>
      cases hblock
      exact inner.queries h

theorem Block.queries (d : Block) {statement : FileChores.Statement}
    (h : statement.Inside d.trees) : ∀ e ∈ statement.operands, e.Queries := by
  cases d with
  | mk opening body => exact body.queries h

theorem Body.queries (d : Body) {statement : FileChores.Statement}
    (h : statement.Inside d.trees) : ∀ e ∈ statement.operands, e.Queries := by
  cases d with
  | close closing => exact absurd h (FileChores.Statement.not_inside_nil _)
  | more first rest => exact h.of_cons.elim first.queries rest.queries

end

end Grammar

theorem Program.isQuery_of_inside {source : String} {program : Program}
    (h : ofSource source = .ok program) {command : Command} {args : List Expr} {pos : Position}
    (hinside : (Expr.query command args pos).Inside program.body) : command.isQuery = true := by
  obtain ⟨lexemes, -, d, -, rfl⟩ := ofSource_eq_ok_iff.1 h
  obtain ⟨statement, hstatement, e, he, hoccurs⟩ := hinside
  exact d.queries hstatement e he command args pos hoccurs

end FileChores
