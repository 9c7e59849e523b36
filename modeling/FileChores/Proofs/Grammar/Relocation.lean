import FileChores.Proofs.Grammar.Derivation
import FileChores.Proofs.Unplaced

/-!
# Moving a derivation

Which words the grammar has depends on their tokens alone. A derivation of some tokens can be moved
to the same tokens in other places, and its tree changes in its positions only.
-/

namespace FileChores.Grammar

def SameTokens (l l' : List Lexeme) : Prop :=
  l.map (·.token) = l'.map (·.token)

theorem SameTokens.cons {l rest : List Lexeme} {token : Token} {pos : Position}
    (h : SameTokens l (⟨token, pos⟩ :: rest)) :
    ∃ pos' l', l = ⟨token, pos'⟩ :: l' ∧ SameTokens l' rest := by
  obtain ⟨⟨token', pos'⟩, l', rfl, rfl, hrest⟩ := List.map_eq_cons_iff.1 h
  exact ⟨pos', l', rfl, hrest⟩

theorem SameTokens.nil {l : List Lexeme} (h : SameTokens l []) : l = [] :=
  List.map_eq_nil_iff.1 h

theorem SameTokens.single {l : List Lexeme} {token : Token} {pos : Position}
    (h : SameTokens l [⟨token, pos⟩]) : ∃ pos', l = [⟨token, pos'⟩] := by
  obtain ⟨pos', l', rfl, hrest⟩ := h.cons
  exact ⟨pos', by rw [hrest.nil]⟩

theorem SameTokens.append {l a b : List Lexeme} (h : SameTokens l (a ++ b)) :
    ∃ a' b', l = a' ++ b' ∧ SameTokens a' a ∧ SameTokens b' b := by
  rw [SameTokens, List.map_append] at h
  exact List.map_eq_append_iff.1 h

mutual

theorem Primary.relocate (d : Primary) (l : List Lexeme) (h : SameTokens l d.yield) :
    ∃ d' : Primary, d'.yield = l ∧ d'.tree.unplaced = d.tree.unplaced := by
  cases d with
  | number value pos =>
      obtain ⟨pos', rfl⟩ := h.single
      exact ⟨.number value pos', rfl, rfl⟩
  | text content pos =>
      obtain ⟨pos', rfl⟩ := h.single
      exact ⟨.text content pos', rfl, rfl⟩
  | word name pos plain =>
      obtain ⟨pos', rfl⟩ := h.single
      exact ⟨.word name pos' plain, rfl, rfl⟩
  | query command isQuery pos args =>
      obtain ⟨pos', l', rfl, hargs⟩ := h.cons
      obtain ⟨args', rfl, htrees⟩ := args.relocate l' hargs
      exact ⟨.query command isQuery pos' args', rfl, by simp [FileChores.Expr.unplaced, htrees]⟩

theorem Call.relocate (d : Call) (l : List Lexeme) (h : SameTokens l d.yield) :
    ∃ d' : Call, d'.yield = l ∧
      FileChores.Expr.unplacedAll d'.trees = FileChores.Expr.unplacedAll d.trees := by
  cases d with
  | empty opening closing =>
      obtain ⟨opening', l', rfl, hrest⟩ := h.cons
      obtain ⟨closing', rfl⟩ := hrest.single
      exact ⟨.empty opening' closing', rfl, rfl⟩
  | args opening first more =>
      obtain ⟨opening', l', rfl, hrest⟩ := h.cons
      obtain ⟨a, b, rfl, ha, hb⟩ := hrest.append
      obtain ⟨first', rfl, htree⟩ := first.relocate a ha
      obtain ⟨more', rfl, htrees⟩ := more.relocate b hb
      refine ⟨.args opening' first' more', rfl, ?_⟩
      simp only [Call.trees, FileChores.Expr.unplacedAll, htree, htrees]

theorem Arguments.relocate (d : Arguments) (l : List Lexeme) (h : SameTokens l d.yield) :
    ∃ d' : Arguments, d'.yield = l ∧
      FileChores.Expr.unplacedAll d'.trees = FileChores.Expr.unplacedAll d.trees := by
  cases d with
  | close closing =>
      obtain ⟨closing', rfl⟩ := h.single
      exact ⟨.close closing', rfl, rfl⟩
  | comma pos next more =>
      obtain ⟨pos', l', rfl, hrest⟩ := h.cons
      obtain ⟨a, b, rfl, ha, hb⟩ := hrest.append
      obtain ⟨next', rfl, htree⟩ := next.relocate a ha
      obtain ⟨more', rfl, htrees⟩ := more.relocate b hb
      refine ⟨.comma pos' next' more', rfl, ?_⟩
      simp only [Arguments.trees, FileChores.Expr.unplacedAll, htree, htrees]

theorem Expr.relocate (d : Expr) (l : List Lexeme) (h : SameTokens l d.yield) :
    ∃ d' : Expr, d'.yield = l ∧ d'.tree.unplaced = d.tree.unplaced := by
  cases d with
  | mk first chain =>
      obtain ⟨a, b, rfl, ha, hb⟩ := h.append
      obtain ⟨first', rfl, htree⟩ := first.relocate a ha
      obtain ⟨chain', rfl, hchain⟩ := chain.relocate b hb
      exact ⟨.mk first' chain', rfl, hchain _ _ htree⟩

theorem Chain.relocate (d : Chain) (l : List Lexeme) (h : SameTokens l d.yield) :
    ∃ d' : Chain, d'.yield = l ∧ ∀ left left' : FileChores.Expr,
      left'.unplaced = left.unplaced → (d'.tree left').unplaced = (d.tree left).unplaced := by
  cases d with
  | done =>
      obtain rfl := h.nil
      exact ⟨.done, rfl, fun _ _ hleft => hleft⟩
  | link op pos next more =>
      obtain ⟨pos', l', rfl, hrest⟩ := h.cons
      obtain ⟨a, b, rfl, ha, hb⟩ := hrest.append
      obtain ⟨next', rfl, htree⟩ := next.relocate a ha
      obtain ⟨more', rfl, hmore⟩ := more.relocate b hb
      refine ⟨.link op pos' next' more', rfl, fun left left' hleft => hmore _ _ ?_⟩
      rw [FileChores.Expr.unplaced, FileChores.Expr.unplaced, hleft, htree]

end

theorem Condition.relocate (d : Condition) (l : List Lexeme) (h : SameTokens l d.yield) :
    ∃ d' : Condition, d'.yield = l ∧ d'.tree.unplaced = d.tree.unplaced := by
  obtain ⟨a, b, rfl, ha, hrest⟩ := h.append
  obtain ⟨pos', b, rfl, hb⟩ := hrest.cons
  obtain ⟨left', rfl, hleft⟩ := d.left.relocate a ha
  obtain ⟨right', rfl, hright⟩ := d.right.relocate b hb
  refine ⟨⟨left', d.op, pos', right'⟩, rfl, ?_⟩
  simp only [Condition.tree, FileChores.Condition.unplaced, hleft, hright]

mutual

theorem Statement.relocate (d : Statement) (l : List Lexeme) (h : SameTokens l d.yield) :
    ∃ d' : Statement, d'.yield = l ∧ d'.tree.unplaced = d.tree.unplaced := by
  cases d with
  | declare pos name namePos signPos value =>
      obtain ⟨pos', l₁, rfl, h₁⟩ := h.cons
      obtain ⟨namePos', l₂, rfl, h₂⟩ := h₁.cons
      obtain ⟨signPos', l₃, rfl, h₃⟩ := h₂.cons
      obtain ⟨value', rfl, htree⟩ := value.relocate l₃ h₃
      refine ⟨.declare pos' name namePos' signPos' value', rfl, ?_⟩
      simp only [Statement.tree, FileChores.Statement.unplaced, htree]
  | assign name pos free signPos value =>
      obtain ⟨pos', l₁, rfl, h₁⟩ := h.cons
      obtain ⟨signPos', l₂, rfl, h₂⟩ := h₁.cons
      obtain ⟨value', rfl, htree⟩ := value.relocate l₂ h₂
      refine ⟨.assign name pos' free signPos' value', rfl, ?_⟩
      simp only [Statement.tree, FileChores.Statement.unplaced, htree]
  | branch pos condition thenBlock elseBlock =>
      obtain ⟨pos', l₁, rfl, h₁⟩ := h.cons
      obtain ⟨a, rest, rfl, ha, hrest⟩ := h₁.append
      obtain ⟨b, c, rfl, hb, hc⟩ := hrest.append
      obtain ⟨condition', rfl, hcondition⟩ := condition.relocate a ha
      obtain ⟨thenBlock', rfl, hthen⟩ := thenBlock.relocate b hb
      obtain ⟨elseBlock', rfl, helse⟩ := elseBlock.relocate c hc
      refine ⟨.branch pos' condition' thenBlock' elseBlock', rfl, ?_⟩
      simp only [Statement.tree, FileChores.Statement.unplaced, hcondition, hthen, helse]
  | loop pos condition body =>
      obtain ⟨pos', l₁, rfl, h₁⟩ := h.cons
      obtain ⟨a, b, rfl, ha, hb⟩ := h₁.append
      obtain ⟨condition', rfl, hcondition⟩ := condition.relocate a ha
      obtain ⟨body', rfl, hbody⟩ := body.relocate b hb
      refine ⟨.loop pos' condition' body', rfl, ?_⟩
      simp only [Statement.tree, FileChores.Statement.unplaced, hcondition, hbody]
  | call command pos args =>
      obtain ⟨pos', l₁, rfl, h₁⟩ := h.cons
      obtain ⟨args', rfl, htrees⟩ := args.relocate l₁ h₁
      refine ⟨.call command pos' args', rfl, ?_⟩
      simp only [Statement.tree, FileChores.Statement.unplaced, htrees]

theorem Else.relocate (d : Else) (l : List Lexeme) (h : SameTokens l d.yield) :
    ∃ d' : Else, d'.yield = l ∧
      FileChores.Statement.unplacedElse d'.trees? = FileChores.Statement.unplacedElse d.trees? := by
  cases d with
  | none =>
      obtain rfl := h.nil
      exact ⟨.none, rfl, rfl⟩
  | block pos block =>
      obtain ⟨pos', l', rfl, hrest⟩ := h.cons
      obtain ⟨block', rfl, htrees⟩ := block.relocate l' hrest
      refine ⟨.block pos' block', rfl, ?_⟩
      simp only [Else.trees?, FileChores.Statement.unplacedElse, htrees]

theorem Block.relocate (d : Block) (l : List Lexeme) (h : SameTokens l d.yield) :
    ∃ d' : Block, d'.yield = l ∧
      FileChores.Statement.unplacedBlock d'.trees = FileChores.Statement.unplacedBlock d.trees := by
  cases d with
  | mk opening body =>
      obtain ⟨opening', l', rfl, hrest⟩ := h.cons
      obtain ⟨body', rfl, htrees⟩ := body.relocate l' hrest
      exact ⟨.mk opening' body', rfl, htrees⟩

theorem Body.relocate (d : Body) (l : List Lexeme) (h : SameTokens l d.yield) :
    ∃ d' : Body, d'.yield = l ∧
      FileChores.Statement.unplacedBlock d'.trees = FileChores.Statement.unplacedBlock d.trees := by
  cases d with
  | close closing =>
      obtain ⟨closing', rfl⟩ := h.single
      exact ⟨.close closing', rfl, rfl⟩
  | more first rest =>
      obtain ⟨a, b, rfl, ha, hb⟩ := h.append
      obtain ⟨first', rfl, htree⟩ := first.relocate a ha
      obtain ⟨rest', rfl, htrees⟩ := rest.relocate b hb
      refine ⟨.more first' rest', rfl, ?_⟩
      simp only [Body.trees, FileChores.Statement.unplacedBlock, htree, htrees]

end

end FileChores.Grammar
