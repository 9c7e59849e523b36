import FileChores.Program

/-!
# The nodes of a program

Which statements and expressions a program has, at any depth, and which commands it calls where.
-/

namespace FileChores

namespace Expr

def parts : Expr → List Expr
  | number _ _ | text _ _ | word _ _ => []
  | binary _ left right _ => [left, right]
  | query _ args _ => args

/-- A node of the expression, the root included. -/
inductive Occurs (node : Expr) : Expr → Prop
  | here : Occurs node node
  | part {e part : Expr} : part ∈ e.parts → Occurs node part → Occurs node e

end Expr

namespace Statement

/-- The expressions of the statement itself, in the order in which they are evaluated. -/
def operands : Statement → List Expr
  | declare _ value _ | assign _ value _ => [value]
  | branch condition _ _ _ | loop condition _ _ => [condition.left, condition.right]
  | call _ args _ => args

/-- A statement of the block, at any depth. -/
inductive Inside (inner : Statement) : List Statement → Prop
  | member {block : List Statement} : inner ∈ block → Inside inner block
  | thenBlock {condition : Condition} {thenBlock : List Statement}
      {elseBlock : Option (List Statement)} {pos : Position} {block : List Statement} :
      .branch condition thenBlock elseBlock pos ∈ block → Inside inner thenBlock →
      Inside inner block
  | elseBlock {condition : Condition} {thenBlock elseBlock : List Statement} {pos : Position}
      {block : List Statement} :
      .branch condition thenBlock (some elseBlock) pos ∈ block → Inside inner elseBlock →
      Inside inner block
  | body {condition : Condition} {body : List Statement} {pos : Position}
      {block : List Statement} :
      .loop condition body pos ∈ block → Inside inner body → Inside inner block

theorem not_inside_nil (inner : Statement) : ¬ inner.Inside [] := by
  rintro (h | ⟨h, -⟩ | ⟨h, -⟩ | ⟨h, -⟩) <;> cases h

theorem Inside.mono {inner : Statement} {block block' : List Statement} (h : inner.Inside block)
    (hsub : block ⊆ block') : inner.Inside block' := by
  cases h with
  | member h => exact .member (hsub h)
  | thenBlock h hinside => exact .thenBlock (hsub h) hinside
  | elseBlock h hinside => exact .elseBlock (hsub h) hinside
  | body h hinside => exact .body (hsub h) hinside

theorem Inside.trans {inner outer : Statement} {block : List Statement} (h : outer.Inside block)
    (hinner : inner.Inside [outer]) : inner.Inside block := by
  induction h with
  | member h => exact hinner.mono (by simpa using h)
  | thenBlock h _ ih => exact .thenBlock h ih
  | elseBlock h _ ih => exact .elseBlock h ih
  | body h _ ih => exact .body h ih

end Statement

def Expr.Inside (node : Expr) (block : List Statement) : Prop :=
  ∃ statement : Statement, statement.Inside block ∧ ∃ e ∈ statement.operands, node.Occurs e

def Calls (block : List Statement) (command : Command) (args : List Expr) (pos : Position) : Prop :=
  (Statement.call command args pos).Inside block ∨ (Expr.query command args pos).Inside block

/-! ## Calls at given places only -/

def Expr.CallsAt (site : Command → Position → Prop) (e : Expr) : Prop :=
  ∀ command args pos, (Expr.query command args pos).Occurs e → site command pos

def CallsAt (site : Command → Position → Prop) (block : List Statement) : Prop :=
  ∀ command args pos, Calls block command args pos → site command pos

variable {site : Command → Position → Prop}

theorem Expr.CallsAt.part {e part : Expr} (h : e.CallsAt site) (hpart : part ∈ e.parts) :
    part.CallsAt site :=
  fun command args pos hquery => h command args pos (.part hpart hquery)

namespace CallsAt

theorem of_inside {block block' : List Statement} (h : CallsAt site block)
    (hsub : ∀ inner : Statement, inner.Inside block' → inner.Inside block) :
    CallsAt site block' := by
  rintro command args pos (hcall | ⟨statement, hinside, hquery⟩)
  · exact h command args pos (.inl (hsub _ hcall))
  · exact h command args pos (.inr ⟨statement, hsub _ hinside, hquery⟩)

theorem mono {block block' : List Statement} (h : CallsAt site block) (hsub : block' ⊆ block) :
    CallsAt site block' :=
  h.of_inside fun _ hinside => hinside.mono hsub

theorem operand {statement : Statement} {block : List Statement} {e : Expr}
    (h : CallsAt site block) (hmem : statement ∈ block) (he : e ∈ statement.operands) :
    e.CallsAt site :=
  fun command args pos hquery =>
    h command args pos (.inr ⟨statement, .member hmem, e, he, hquery⟩)

end CallsAt

end FileChores
