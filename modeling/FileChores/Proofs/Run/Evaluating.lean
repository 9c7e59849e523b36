import FileChores.Proofs.Run.Blame
import FileChores.Proofs.Run.Framing

/-!
# What a run evaluates

To which nodes of a block its execution comes, and in which machine. A variable that is bound before
is bound there as well, so a script that begins by binding a variable never reads it unbound.
-/

namespace FileChores

open Run

variable {σ α : Type}

/-- Executing the statement from the first machine on comes to the node, in the second machine. A
loop evaluates its condition again after each iteration. -/
inductive Statement.Evaluates (s : Setting σ) (m : Machine σ) :
    Statement → Expr → Machine σ → Prop
  | operand {statement : Statement} {node : Expr} {there : Machine σ} :
      Comes s statement.operands (m.entered statement.pos) node there →
      Evaluates s m statement node there
  | again {condition : Condition} {body : List Statement} {pos : Position} {n : Nat}
      {m₁ : Machine σ} {node : Expr} {there : Machine σ} :
      Turns s condition body n (m.entered pos) m₁ →
      Comes s [condition.left, condition.right] m₁ node there →
      Evaluates s m (.loop condition body pos) node there

def BlockEvaluates (s : Setting σ) (block : List Statement) (m : Machine σ) (node : Expr)
    (there : Machine σ) : Prop :=
  ∃ statement here, ComesTo s statement here block m ∧ statement.Evaluates s here node there

def Program.Evaluates (s : Setting σ) (program : Program) (files : σ) :
    Expr → Machine σ → Prop :=
  BlockEvaluates s program.body (program.start files)

variable {s : Setting σ} {m m' there : Machine σ} {node : Expr} {name : String}

/-! ## What is bound stays bound -/

theorem Run.Framed.contains_of_ok {x : Run σ α} (h : Framed (fun _ => True) x) {a : α}
    (hx : result x m = (.ok a, m')) (hname : m.environment.contains name = true) :
    m'.environment.contains name = true := by
  have hbound := (h m).bound name hname
  rwa [hx] at hbound

theorem Run.Comes.contains {es : List Expr} (h : Comes s es m node there)
    (hname : m.environment.contains name = true) : there.environment.contains name = true := by
  induction h with
  | head => exact hname
  | part _ ih => exact ih hname
  | tail hfirst _ ih =>
      exact ih (((framed_congruence _ s).evaluate _).contains_of_ok hfirst hname)

theorem Turns.contains {condition : Condition} {body : List Statement} {n : Nat}
    (h : Turns s condition body n m m') (hname : m.environment.contains name = true) :
    m'.environment.contains name = true := by
  induction h with
  | none => exact hname
  | turn _ htest _ hbody ih =>
      have htested := ((framed_congruence _ s).test condition).contains_of_ok htest (ih hname)
      exact (framed_executeBlock s body fun _ _ => trivial).contains_of_ok hbody htested

theorem ComesTo.contains {target : Statement} {block : List Statement}
    (h : ComesTo s target there block m) (hname : m.environment.contains name = true) :
    there.environment.contains name = true := by
  have htested (condition : Condition) (pos : Position) : Framed (fun _ => True)
      (enter pos >>= fun _ => test s condition) :=
    (framed_enter pos).bind fun _ => (framed_congruence _ s).test condition
  induction h with
  | here => exact hname
  | later hfirst _ ih =>
      exact ih ((framed_execute s _ fun _ _ => trivial).contains_of_ok hfirst hname)
  | thenBlock htest _ ih | elseBlock htest _ ih =>
      exact ih ((htested _ _).contains_of_ok htest hname)
  | body henter hturns htest _ _ ih =>
      have hentered := (framed_enter _).contains_of_ok henter hname
      exact ih (((framed_congruence _ s).test _).contains_of_ok htest (hturns.contains hentered))

theorem Statement.Evaluates.contains {statement : Statement}
    (h : statement.Evaluates s m node there) (hname : m.environment.contains name = true) :
    there.environment.contains name = true := by
  cases h with
  | operand hcomes => exact hcomes.contains hname
  | again hturns hcomes => exact hcomes.contains (hturns.contains hname)

theorem BlockEvaluates.contains {block : List Statement}
    (h : BlockEvaluates s block m node there) (hname : m.environment.contains name = true) :
    there.environment.contains name = true := by
  obtain ⟨statement, here, hcomes, hevaluates⟩ := h
  exact hevaluates.contains (hcomes.contains hname)

/-! ## Reading a bound variable -/

def ReadsBound (s : Setting σ) (name : String) (block : List Statement) (m : Machine σ) : Prop :=
  ∀ pos there, BlockEvaluates s block m (.word name pos) there →
    there.environment.contains name = true

/-- A script that begins with a declaration of a variable, and does not read it there, never reads
it unbound. -/
theorem readsBound_of_declare {value : Expr} {pos : Position} {rest : List Statement}
    (h : ∀ pos, ¬ (Expr.word name pos).Occurs value) (m : Machine σ) :
    ReadsBound s name (.declare name value pos :: rest) m := by
  rintro place there ⟨statement, here, hcomes, hevaluates⟩
  cases hcomes with
  | here =>
      cases hevaluates with
      | operand hcomes =>
          obtain ⟨e, he, hoccurs⟩ := hcomes.occurs
          obtain rfl : e = value := List.mem_singleton.1 he
          exact absurd hoccurs (h place)
  | later hfirst hcomes =>
      rw [execute] at hfirst
      obtain ⟨_, m₁, -, hfirst⟩ := exists_of_result_bind hfirst
      obtain ⟨a, m₂, -, hassign⟩ := exists_of_result_bind hfirst
      cases hassign
      refine hevaluates.contains (hcomes.contains ?_)
      rw [Environment.contains_iff]
      show (m₂.environment.insert name a).get? name ≠ none
      rw [Environment.get?_insert, if_pos rfl]
      exact Option.some_ne_none a

end FileChores
