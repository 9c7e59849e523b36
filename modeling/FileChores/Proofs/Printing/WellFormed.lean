import FileChores.Proofs.Printing.Print
import FileChores.Proofs.Unplaced

/-!
# Well-formed trees and derivations

A well-formed tree is the tree of a derivation of its own tokens, and the other way round a
derivation of sound tokens has a well-formed tree.
-/

namespace FileChores.Grammar

/-! ## From trees to derivations -/

def Chain.snoc (op : Operator) (pos : Position) (last : Primary) : Chain → Chain
  | .done => .link op pos last .done
  | .link op' pos' next more => .link op' pos' next (more.snoc op pos last)

theorem Chain.yield_snoc (d : Chain) (op : Operator) (pos : Position) (last : Primary) :
    (d.snoc op pos last).yield = d.yield ++ ⟨op.token, pos⟩ :: last.yield := by
  cases d with
  | done => simp [Chain.snoc]
  | link op' pos' next more => simp [Chain.snoc, more.yield_snoc]

theorem Chain.tree_snoc (d : Chain) (op : Operator) (pos : Position) (last : Primary)
    (left : FileChores.Expr) :
    (d.snoc op pos last).tree left = .binary op (d.tree left) last.tree pos := by
  cases d with
  | done => rfl
  | link op' pos' next more =>
      rw [Chain.snoc, Chain.tree, Chain.tree, more.tree_snoc]

def DerivesPrimary (e : FileChores.Expr) : Prop :=
  ∃ d : Primary, d.yield.map (·.token) = e.tokens ∧ d.tree = e

def DerivesExpr (e : FileChores.Expr) : Prop :=
  ∃ d : Expr, d.yield.map (·.token) = e.tokens ∧ d.tree = e

theorem DerivesPrimary.derivesExpr {e : FileChores.Expr} (h : DerivesPrimary e) :
    DerivesExpr e := by
  obtain ⟨d, hyield, htree⟩ := h
  exact ⟨.mk d .done, by rw [Expr.yield, Chain.yield, List.append_nil, hyield], htree⟩

mutual

theorem derivesExpr (e : FileChores.Expr) (h : e.WellFormed) :
    (e.isBinary = false → DerivesPrimary e) ∧ DerivesExpr e := by
  cases e with
  | number value pos =>
      have hprimary : DerivesPrimary (.number value pos) := ⟨.number value pos, rfl, rfl⟩
      exact ⟨fun _ => hprimary, hprimary.derivesExpr⟩
  | text content pos =>
      have hprimary : DerivesPrimary (.text content pos) := ⟨.text content pos, rfl, rfl⟩
      exact ⟨fun _ => hprimary, hprimary.derivesExpr⟩
  | word name pos =>
      have hprimary : DerivesPrimary (.word name pos) := ⟨.word name pos h.2, rfl, rfl⟩
      exact ⟨fun _ => hprimary, hprimary.derivesExpr⟩
  | binary op left right pos =>
      obtain ⟨hleft, hright, hsingle⟩ := h
      obtain ⟨⟨first, chain⟩, hyield, htree⟩ := (derivesExpr left hleft).2
      obtain ⟨last, hyield', htree'⟩ := (derivesExpr right hright).1 hsingle
      refine ⟨?_, .mk first (chain.snoc op pos last), ?_, ?_⟩
      · intro hbinary
        cases hbinary
      · rw [Expr.yield, List.map_append] at hyield
        simp [Chain.yield_snoc, FileChores.Expr.tokens, ← hyield, ← hyield']
      · rw [Expr.tree] at htree
        rw [Expr.tree, Chain.tree_snoc, htree, htree']
  | query command args pos =>
      obtain ⟨hquery, hargs⟩ := h
      obtain ⟨d, hyield, htrees⟩ := derivesCall args hargs
      have hprimary : DerivesPrimary (.query command args pos) := by
        refine ⟨.query command hquery pos d, ?_, ?_⟩
        · rw [Primary.yield, List.map_cons, hyield, FileChores.Expr.tokens]
        · rw [Primary.tree, htrees]
      exact ⟨fun _ => hprimary, hprimary.derivesExpr⟩

theorem derivesCall (args : List FileChores.Expr) (h : FileChores.Expr.AllWellFormed args) :
    ∃ d : Call, d.yield.map (·.token) = FileChores.Expr.callTokens args ∧ d.trees = args := by
  cases args with
  | nil => exact ⟨.empty .start .start, rfl, rfl⟩
  | cons first more =>
      obtain ⟨first', hyield, rfl⟩ := (derivesExpr first h.1).2
      obtain ⟨more', hyield', rfl⟩ := derivesArguments more h.2
      refine ⟨.args .start first' more', ?_, rfl⟩
      rw [Call.yield, List.map_cons, List.map_append, hyield, hyield', FileChores.Expr.callTokens]

theorem derivesArguments (args : List FileChores.Expr) (h : FileChores.Expr.AllWellFormed args) :
    ∃ d : Arguments, d.yield.map (·.token) = FileChores.Expr.moreTokens args ∧ d.trees = args := by
  cases args with
  | nil => exact ⟨.close .start, rfl, rfl⟩
  | cons next more =>
      obtain ⟨next', hyield, rfl⟩ := (derivesExpr next h.1).2
      obtain ⟨more', hyield', rfl⟩ := derivesArguments more h.2
      refine ⟨.comma .start next' more', ?_, rfl⟩
      rw [Arguments.yield, List.map_cons, List.map_append, hyield, hyield',
        FileChores.Expr.moreTokens]

end

theorem derivesCondition (condition : FileChores.Condition) (h : condition.WellFormed) :
    ∃ d : Condition, d.yield.map (·.token) = condition.tokens ∧
      d.tree.unplaced = condition.unplaced := by
  obtain ⟨left, op, right, pos⟩ := condition
  obtain ⟨left', hyield, rfl⟩ := (derivesExpr left h.1).2
  obtain ⟨right', hyield', rfl⟩ := (derivesExpr right h.2).2
  refine ⟨⟨left', op, .start, right'⟩, ?_, rfl⟩
  rw [Condition.yield, List.map_append, List.map_cons, hyield, hyield', FileChores.Condition.tokens]

mutual

theorem derivesStatement (s : FileChores.Statement) (h : s.WellFormed) :
    ∃ d : Statement, d.yield.map (·.token) = s.tokens ∧ d.tree.unplaced = s.unplaced := by
  cases s with
  | declare name value pos =>
      obtain ⟨value', hyield, rfl⟩ := (derivesExpr value h.2).2
      refine ⟨.declare pos name .start .start value', ?_, rfl⟩
      simp only [Statement.yield, List.map_cons, hyield, FileChores.Statement.tokens]
  | assign name value pos =>
      obtain ⟨value', hyield, rfl⟩ := (derivesExpr value h.2.2).2
      refine ⟨.assign name pos h.2.1 .start value', ?_, rfl⟩
      simp only [Statement.yield, List.map_cons, hyield, FileChores.Statement.tokens]
  | branch condition thenBlock elseBlock pos =>
      obtain ⟨hcondition, hthen, helse⟩ := h
      obtain ⟨condition', hyield, htree⟩ := derivesCondition condition hcondition
      obtain ⟨thenBlock', hyield', htree'⟩ := derivesBody thenBlock hthen
      obtain ⟨elseBlock', hyield'', htree''⟩ := derivesElse elseBlock helse
      refine ⟨.branch pos condition' (.mk .start thenBlock') elseBlock', ?_, ?_⟩
      · simp only [Statement.yield, Block.yield, List.map_cons, List.map_append, hyield, hyield',
          hyield'', FileChores.Statement.tokens]
      · simp only [Statement.tree, Block.trees, FileChores.Statement.unplaced, htree, htree',
          htree'']
  | loop condition body pos =>
      obtain ⟨condition', hyield, htree⟩ := derivesCondition condition h.1
      obtain ⟨body', hyield', htree'⟩ := derivesBody body h.2
      refine ⟨.loop pos condition' (.mk .start body'), ?_, ?_⟩
      · simp only [Statement.yield, Block.yield, List.map_cons, List.map_append, hyield, hyield',
          FileChores.Statement.tokens]
      · simp only [Statement.tree, Block.trees, FileChores.Statement.unplaced, htree, htree']
  | call command args pos =>
      obtain ⟨args', hyield, rfl⟩ := derivesCall args h
      refine ⟨.call command pos args', ?_, rfl⟩
      simp only [Statement.yield, List.map_cons, hyield, FileChores.Statement.tokens]

theorem derivesBody (body : FileChores.Block) (h : FileChores.Statement.AllWellFormed body) :
    ∃ d : Body, d.yield.map (·.token) = FileChores.Statement.bodyTokens body ∧
      FileChores.Statement.unplacedBlock d.trees = FileChores.Statement.unplacedBlock body := by
  cases body with
  | nil => exact ⟨.close .start, rfl, rfl⟩
  | cons first rest =>
      obtain ⟨first', hyield, htree⟩ := derivesStatement first h.1
      obtain ⟨rest', hyield', htree'⟩ := derivesBody rest h.2
      refine ⟨.more first' rest', ?_, ?_⟩
      · rw [Body.yield, List.map_append, hyield, hyield', FileChores.Statement.bodyTokens]
      · simp only [Body.trees, FileChores.Statement.unplacedBlock, htree, htree']

theorem derivesElse (elseBlock : Option FileChores.Block)
    (h : FileChores.Statement.ElseWellFormed elseBlock) :
    ∃ d : Else, d.yield.map (·.token) = FileChores.Statement.elseTokens elseBlock ∧
      FileChores.Statement.unplacedElse d.trees? = FileChores.Statement.unplacedElse elseBlock := by
  cases elseBlock with
  | none => exact ⟨.none, rfl, rfl⟩
  | some block =>
      obtain ⟨block', hyield, htree⟩ := derivesBody block h
      refine ⟨.block .start (.mk .start block'), ?_, ?_⟩
      · simp only [Else.yield, Block.yield, List.map_cons, hyield, FileChores.Statement.elseTokens]
      · simp only [Else.trees?, Block.trees, FileChores.Statement.unplacedElse, htree]

end

theorem derivesProgram {program : Program} (h : program.WellFormed) :
    ∃ d : Block, d.yield.map (·.token) = program.tokens ∧
      d.program.unplaced = program.unplaced := by
  obtain ⟨d, hyield, htrees⟩ := derivesBody program.body h
  refine ⟨.mk .start d, ?_, congrArg Program.mk htrees⟩
  rw [Block.yield, List.map_cons, hyield, Program.tokens]

/-! ## From derivations to trees -/

mutual

theorem Primary.wellFormed (d : Primary) (h : ∀ lexeme ∈ d.yield, lexeme.token.Sound) :
    d.tree.WellFormed ∧ d.tree.isBinary = false := by
  cases d with
  | number value pos => exact ⟨h _ (List.mem_singleton_self _), rfl⟩
  | text content pos => exact ⟨trivial, rfl⟩
  | word name pos plain => exact ⟨⟨h _ (List.mem_singleton_self _), plain⟩, rfl⟩
  | query command isQuery pos args =>
      rw [Primary.yield, List.forall_mem_cons] at h
      exact ⟨⟨isQuery, args.wellFormed h.2⟩, rfl⟩

theorem Call.wellFormed (d : Call) (h : ∀ lexeme ∈ d.yield, lexeme.token.Sound) :
    FileChores.Expr.AllWellFormed d.trees := by
  cases d with
  | empty opening closing => trivial
  | args opening first more =>
      simp only [Call.yield, List.forall_mem_cons, List.forall_mem_append] at h
      exact ⟨first.wellFormed h.2.1, more.wellFormed h.2.2⟩

theorem Arguments.wellFormed (d : Arguments) (h : ∀ lexeme ∈ d.yield, lexeme.token.Sound) :
    FileChores.Expr.AllWellFormed d.trees := by
  cases d with
  | close closing => trivial
  | comma pos next more =>
      simp only [Arguments.yield, List.forall_mem_cons, List.forall_mem_append] at h
      exact ⟨next.wellFormed h.2.1, more.wellFormed h.2.2⟩

theorem Expr.wellFormed (d : Expr) (h : ∀ lexeme ∈ d.yield, lexeme.token.Sound) :
    d.tree.WellFormed := by
  cases d with
  | mk first chain =>
      rw [Expr.yield, List.forall_mem_append] at h
      exact chain.wellFormed h.2 first.tree (first.wellFormed h.1).1

theorem Chain.wellFormed (d : Chain) (h : ∀ lexeme ∈ d.yield, lexeme.token.Sound)
    (left : FileChores.Expr) (hleft : left.WellFormed) : (d.tree left).WellFormed := by
  cases d with
  | done => exact hleft
  | link op pos next more =>
      simp only [Chain.yield, List.forall_mem_cons, List.forall_mem_append] at h
      exact more.wellFormed h.2.2 _ ⟨hleft, next.wellFormed h.2.1⟩

end

theorem Condition.wellFormed (d : Condition) (h : ∀ lexeme ∈ d.yield, lexeme.token.Sound) :
    d.tree.WellFormed := by
  simp only [Condition.yield, List.forall_mem_cons, List.forall_mem_append] at h
  exact ⟨d.left.wellFormed h.1, d.right.wellFormed h.2.2⟩

mutual

theorem Statement.wellFormed (d : Statement) (h : ∀ lexeme ∈ d.yield, lexeme.token.Sound) :
    d.tree.WellFormed := by
  cases d with
  | declare pos name namePos signPos value =>
      simp only [Statement.yield, List.forall_mem_cons] at h
      exact ⟨h.2.1, value.wellFormed h.2.2.2⟩
  | assign name pos free signPos value =>
      simp only [Statement.yield, List.forall_mem_cons] at h
      exact ⟨h.1, free, value.wellFormed h.2.2⟩
  | branch pos condition thenBlock elseBlock =>
      simp only [Statement.yield, List.forall_mem_cons, List.forall_mem_append] at h
      obtain ⟨-, hcondition, hthen, helse⟩ := h
      exact ⟨condition.wellFormed hcondition, thenBlock.wellFormed hthen,
        elseBlock.wellFormed helse⟩
  | loop pos condition body =>
      simp only [Statement.yield, List.forall_mem_cons, List.forall_mem_append] at h
      exact ⟨condition.wellFormed h.2.1, body.wellFormed h.2.2⟩
  | call command pos args =>
      rw [Statement.yield, List.forall_mem_cons] at h
      exact args.wellFormed h.2

theorem Else.wellFormed (d : Else) (h : ∀ lexeme ∈ d.yield, lexeme.token.Sound) :
    FileChores.Statement.ElseWellFormed d.trees? := by
  cases d with
  | none => trivial
  | block pos block =>
      rw [Else.yield, List.forall_mem_cons] at h
      exact block.wellFormed h.2

theorem Block.wellFormed (d : Block) (h : ∀ lexeme ∈ d.yield, lexeme.token.Sound) :
    FileChores.Statement.AllWellFormed d.trees := by
  cases d with
  | mk opening body =>
      rw [Block.yield, List.forall_mem_cons] at h
      exact body.wellFormed h.2

theorem Body.wellFormed (d : Body) (h : ∀ lexeme ∈ d.yield, lexeme.token.Sound) :
    FileChores.Statement.AllWellFormed d.trees := by
  cases d with
  | close closing => trivial
  | more first rest =>
      rw [Body.yield, List.forall_mem_append] at h
      exact ⟨first.wellFormed h.1, rest.wellFormed h.2⟩

end

end FileChores.Grammar
