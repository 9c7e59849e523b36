import FileChores.Proofs.Grammar.Script
import FileChores.Proofs.Lexing.Blanking
import FileChores.Proofs.Program.Undeclared

/-!
# Derivations without the keyword of declarations

Without the keyword a declaration is an assignment, unless what it declares is the name of a
command. Then its name, which begins a call, stands in front of an assignment sign, and that is no
statement.
-/

namespace FileChores

theorem Operator.isVar_token (op : Operator) : op.token.isVar = false := by
  cases op <;> rfl

theorem Comparison.isVar_token (op : Comparison) : op.token.isVar = false := by
  cases op <;> rfl

end FileChores

namespace FileChores.Grammar

open Lexeme

theorem unkeyed_append (front back : List Lexeme) :
    unkeyed (front ++ back) = unkeyed front ++ unkeyed back :=
  List.filter_append ..

theorem unkeyed_var (pos : Position) (rest : List Lexeme) :
    unkeyed (⟨.varKeyword, pos⟩ :: rest) = unkeyed rest := rfl

theorem unkeyed_cons {token : Token} (h : token.isVar = false) (pos : Position)
    (rest : List Lexeme) : unkeyed (⟨token, pos⟩ :: rest) = ⟨token, pos⟩ :: unkeyed rest := by
  simp [unkeyed, h]

/-! ## Expressions -/

mutual

theorem Primary.unkeyed_yield (d : Primary) : unkeyed d.yield = d.yield := by
  cases d with
  | query command isQuery pos args =>
      rw [Primary.yield, unkeyed_cons rfl, args.unkeyed_yield]
  | _ => rfl

theorem Call.unkeyed_yield (d : Call) : unkeyed d.yield = d.yield := by
  cases d with
  | empty opening closing => rfl
  | args opening first more =>
      rw [Call.yield, unkeyed_cons rfl, unkeyed_append, first.unkeyed_yield, more.unkeyed_yield]

theorem Arguments.unkeyed_yield (d : Arguments) : unkeyed d.yield = d.yield := by
  cases d with
  | close closing => rfl
  | comma pos next more =>
      rw [Arguments.yield, unkeyed_cons rfl, unkeyed_append, next.unkeyed_yield,
        more.unkeyed_yield]

theorem Expr.unkeyed_yield (d : Expr) : unkeyed d.yield = d.yield := by
  cases d with
  | mk first chain =>
      rw [Expr.yield, unkeyed_append, first.unkeyed_yield, chain.unkeyed_yield]

theorem Chain.unkeyed_yield (d : Chain) : unkeyed d.yield = d.yield := by
  cases d with
  | done => rfl
  | link op pos next more =>
      rw [Chain.yield, unkeyed_cons op.isVar_token, unkeyed_append, next.unkeyed_yield,
        more.unkeyed_yield]

end

theorem Condition.unkeyed_yield (d : Condition) : unkeyed d.yield = d.yield := by
  rw [Condition.yield, unkeyed_append, unkeyed_cons d.op.isVar_token,
    d.left.unkeyed_yield, d.right.unkeyed_yield]

/-! ## From declarations to assignments -/

mutual

theorem Statement.exists_unkeyed (d : Statement) (h : DeclaresFree [d.tree]) :
    ∃ d' : Statement, d'.yield = unkeyed d.yield ∧ d'.tree.undeclared = d.tree.undeclared := by
  cases d with
  | declare pos name namePos signPos value =>
      refine ⟨.assign name namePos (DeclaresFree.declare_iff.1 h) signPos value, ?_, rfl⟩
      rw [Statement.yield, unkeyed_var, unkeyed_cons rfl, unkeyed_cons rfl, value.unkeyed_yield]
      rfl
  | assign name pos free signPos value =>
      refine ⟨.assign name pos free signPos value, ?_, rfl⟩
      rw [Statement.yield, unkeyed_cons rfl, unkeyed_cons rfl, value.unkeyed_yield]
  | branch pos condition thenBlock elseBlock =>
      obtain ⟨hthen, helse⟩ := DeclaresFree.branch_iff.1 h
      obtain ⟨thenBlock', hyield, htrees⟩ := thenBlock.exists_unkeyed hthen
      obtain ⟨elseBlock', hyield', htrees'⟩ := elseBlock.exists_unkeyed helse
      refine ⟨.branch pos condition thenBlock' elseBlock', ?_, ?_⟩
      · rw [Statement.yield, Statement.yield, unkeyed_cons rfl, unkeyed_append, unkeyed_append,
          condition.unkeyed_yield, hyield, hyield']
      · simp only [Statement.tree, FileChores.Statement.undeclared, htrees, htrees']
  | loop pos condition body =>
      obtain ⟨body', hyield, htrees⟩ := body.exists_unkeyed (DeclaresFree.loop_iff.1 h)
      refine ⟨.loop pos condition body', ?_, ?_⟩
      · rw [Statement.yield, Statement.yield, unkeyed_cons rfl, unkeyed_append,
          condition.unkeyed_yield, hyield]
      · simp only [Statement.tree, FileChores.Statement.undeclared, htrees]
  | call command pos args =>
      refine ⟨.call command pos args, ?_, rfl⟩
      rw [Statement.yield, unkeyed_cons rfl, args.unkeyed_yield]

theorem Else.exists_unkeyed (d : Else) (h : ∀ block ∈ d.trees?, DeclaresFree block) :
    ∃ d' : Else, d'.yield = unkeyed d.yield ∧
      FileChores.Statement.undeclaredElse d'.trees? =
        FileChores.Statement.undeclaredElse d.trees? := by
  cases d with
  | none => exact ⟨.none, rfl, rfl⟩
  | block pos block =>
      obtain ⟨block', hyield, htrees⟩ := block.exists_unkeyed (h _ rfl)
      refine ⟨.block pos block', ?_, ?_⟩
      · rw [Else.yield, Else.yield, unkeyed_cons rfl, hyield]
      · simp only [Else.trees?, FileChores.Statement.undeclaredElse, htrees]

theorem Block.exists_unkeyed (d : Block) (h : DeclaresFree d.trees) :
    ∃ d' : Block, d'.yield = unkeyed d.yield ∧
      FileChores.Statement.undeclaredBlock d'.trees =
        FileChores.Statement.undeclaredBlock d.trees := by
  cases d with
  | mk opening body =>
      obtain ⟨body', hyield, htrees⟩ := body.exists_unkeyed h
      refine ⟨.mk opening body', ?_, htrees⟩
      rw [Block.yield, Block.yield, unkeyed_cons rfl, hyield]

theorem Body.exists_unkeyed (d : Body) (h : DeclaresFree d.trees) :
    ∃ d' : Body, d'.yield = unkeyed d.yield ∧
      FileChores.Statement.undeclaredBlock d'.trees =
        FileChores.Statement.undeclaredBlock d.trees := by
  cases d with
  | close closing => exact ⟨.close closing, rfl, rfl⟩
  | more first rest =>
      obtain ⟨hfirst, hrest⟩ := DeclaresFree.cons_iff.1 h
      obtain ⟨first', hyield, htree⟩ := first.exists_unkeyed hfirst
      obtain ⟨rest', hyield', htrees⟩ := rest.exists_unkeyed hrest
      refine ⟨.more first' rest', ?_, ?_⟩
      · rw [Body.yield, Body.yield, unkeyed_append, hyield, hyield']
      · simp only [Body.trees, FileChores.Statement.undeclaredBlock, htree, htrees]

end

/-! ## From assignments back to declarations -/

theorem Statement.endsStatement_next_unkeyed (statement : Statement) (rest : List Lexeme) :
    EndsStatement (next (unkeyed statement.yield ++ rest)) := by
  refine ⟨fun op => ?_, ?_⟩
  · cases statement <;> cases op <;> simp [unkeyed, Token.isVar, Operator.token]
  · cases statement <;> simp [unkeyed, Token.isVar]

theorem Body.endsStatement_next_unkeyed (body : Body) (rest : List Lexeme) :
    EndsStatement (next (unkeyed body.yield ++ rest)) := by
  cases body with
  | close closing => exact (Body.close closing).endsStatement_next rest
  | more first more =>
      rw [Body.yield, unkeyed_append, List.append_assoc]
      exact first.endsStatement_next_unkeyed _

/-- A phrase that is read alike in every text leaves the same behind it. -/
theorem rest_eq {D α : Type} {yield : D → List Lexeme} {tree : D → α}
    {ends : Option Token → Prop} {read : List Lexeme → Except Stuck (α × List Lexeme)}
    (hreads : ∀ input, Reading yield tree ends input (read input)) {a b : D}
    {rest rest' : List Lexeme} (ha : ends (next rest)) (hb : ends (next rest'))
    (h : yield b ++ rest' = yield a ++ rest) : rest' = rest := by
  have hread := (hreads (yield a ++ rest)).eq_ok ha
  have hread' := (hreads (yield b ++ rest')).eq_ok hb
  rw [h, hread] at hread'
  exact (congrArg Prod.snd (Except.ok.inj hread')).symm

theorem Expr.rest_eq {a b : Expr} {rest rest' : List Lexeme} (ha : EndsExpr (next rest))
    (hb : EndsExpr (next rest')) (h : b.yield ++ rest' = a.yield ++ rest) : rest' = rest :=
  Grammar.rest_eq readsExpr ha hb h

theorem Condition.rest_eq {a b : Condition} {rest rest' : List Lexeme} (ha : EndsExpr (next rest))
    (hb : EndsExpr (next rest')) (h : b.yield ++ rest' = a.yield ++ rest) : rest' = rest :=
  Grammar.rest_eq readsCondition ha hb h

theorem Call.rest_eq {a b : Call} {rest rest' : List Lexeme}
    (h : b.yield ++ rest' = a.yield ++ rest) : rest' = rest :=
  Grammar.rest_eq (readsCall .wait) trivial trivial h

theorem Call.yield_ne_assign (args : Call) (pos : Position) (rest more : List Lexeme) :
    args.yield ++ rest ≠ ⟨.assign, pos⟩ :: more := by
  cases args <;> simp

theorem Block.endsExpr_next_unkeyed (block : Block) (rest : List Lexeme) :
    EndsExpr (next (unkeyed block.yield ++ rest)) := by
  cases block with
  | mk opening body =>
      rw [Block.yield, unkeyed_cons rfl]
      exact (Block.mk opening body).endsExpr_next rest

mutual

theorem Statement.declaresFree_of_unkeyed (d d' : Statement) {rest rest' : List Lexeme}
    (hends : EndsStatement (next rest)) (hends' : EndsStatement (next rest'))
    (h : d'.yield ++ rest' = unkeyed d.yield ++ rest) :
    DeclaresFree [d.tree] ∧ rest' = rest := by
  cases d with
  | declare pos name namePos signPos value =>
      rw [Statement.yield, unkeyed_var, unkeyed_cons rfl, unkeyed_cons rfl,
        value.unkeyed_yield] at h
      cases d' with
      | assign name' pos' free signPos' value' =>
          simp only [Statement.yield, List.cons_append, List.cons.injEq, Lexeme.mk.injEq,
            Token.word.injEq] at h
          obtain ⟨⟨rfl, rfl⟩, -, hvalue⟩ := h
          exact ⟨DeclaresFree.declare_iff.2 free, Expr.rest_eq hends.1 hends'.1 hvalue⟩
      | call command pos' args =>
          rw [Statement.yield] at h
          exact absurd (List.cons.inj h).2 (args.yield_ne_assign _ _ _)
      | _ => simp at h
  | assign name pos free signPos value =>
      rw [Statement.yield, unkeyed_cons rfl, unkeyed_cons rfl, value.unkeyed_yield] at h
      cases d' with
      | assign name' pos' free' signPos' value' =>
          simp only [Statement.yield, List.cons_append, List.cons.injEq] at h
          exact ⟨.assign, Expr.rest_eq hends.1 hends'.1 h.2.2⟩
      | call command pos' args =>
          rw [Statement.yield] at h
          exact absurd (List.cons.inj h).2 (args.yield_ne_assign _ _ _)
      | _ => simp at h
  | branch pos condition thenBlock elseBlock =>
      rw [Statement.yield, unkeyed_cons rfl, unkeyed_append, unkeyed_append,
        condition.unkeyed_yield] at h
      cases d' with
      | branch pos' condition' thenBlock' elseBlock' =>
          simp only [Statement.yield, List.cons_append, List.append_assoc, List.cons.injEq] at h
          have hthen := Condition.rest_eq (thenBlock.endsExpr_next_unkeyed _)
            (thenBlock'.endsExpr_next _) h.2
          obtain ⟨hfree, helse⟩ := thenBlock.declaresFree_of_unkeyed thenBlock' hthen
          obtain ⟨hfree', hrest⟩ := elseBlock.declaresFree_of_unkeyed elseBlock' hends hends' helse
          exact ⟨DeclaresFree.branch_iff.2 ⟨hfree, hfree'⟩, hrest⟩
      | _ => simp at h
  | loop pos condition body =>
      rw [Statement.yield, unkeyed_cons rfl, unkeyed_append, condition.unkeyed_yield] at h
      cases d' with
      | loop pos' condition' body' =>
          simp only [Statement.yield, List.cons_append, List.append_assoc, List.cons.injEq] at h
          have hbody := Condition.rest_eq (body.endsExpr_next_unkeyed _) (body'.endsExpr_next _) h.2
          obtain ⟨hfree, hrest⟩ := body.declaresFree_of_unkeyed body' hbody
          exact ⟨DeclaresFree.loop_iff.2 hfree, hrest⟩
      | _ => simp at h
  | call command pos args =>
      rw [Statement.yield, unkeyed_cons rfl, args.unkeyed_yield] at h
      cases d' with
      | assign name pos' free signPos value =>
          rw [Statement.yield] at h
          exact absurd (List.cons.inj h).2.symm (args.yield_ne_assign _ _ _)
      | call command' pos' args' =>
          rw [Statement.yield] at h
          exact ⟨.call, Call.rest_eq (List.cons.inj h).2⟩
      | _ => simp at h

theorem Else.declaresFree_of_unkeyed (d d' : Else) {rest rest' : List Lexeme}
    (hends : EndsStatement (next rest)) (hends' : EndsStatement (next rest'))
    (h : d'.yield ++ rest' = unkeyed d.yield ++ rest) :
    (∀ block ∈ d.trees?, DeclaresFree block) ∧ rest' = rest := by
  cases d with
  | none =>
      refine ⟨fun _ hblock => absurd hblock (Option.not_mem_none _), ?_⟩
      cases d' with
      | none => exact h
      | block pos block =>
          rw [Else.yield] at h
          exact absurd (congrArg next h).symm hends.2
  | block pos block =>
      rw [Else.yield, unkeyed_cons rfl] at h
      cases d' with
      | none =>
          rw [Else.yield] at h
          exact absurd (congrArg next h) hends'.2
      | block pos' block' =>
          obtain ⟨hfree, hrest⟩ := block.declaresFree_of_unkeyed block' (List.cons.inj h).2
          refine ⟨?_, hrest⟩
          rintro statements hstatements
          cases hstatements
          exact hfree

theorem Block.declaresFree_of_unkeyed (d d' : Block) {rest rest' : List Lexeme}
    (h : d'.yield ++ rest' = unkeyed d.yield ++ rest) :
    DeclaresFree d.trees ∧ rest' = rest := by
  cases d with
  | mk opening body =>
      cases d' with
      | mk opening' body' =>
          rw [Block.yield, Block.yield, unkeyed_cons rfl] at h
          exact body.declaresFree_of_unkeyed body' (List.cons.inj h).2

theorem Body.declaresFree_of_unkeyed (d d' : Body) {rest rest' : List Lexeme}
    (h : d'.yield ++ rest' = unkeyed d.yield ++ rest) :
    DeclaresFree d.trees ∧ rest' = rest := by
  cases d with
  | close closing =>
      rw [Body.yield, unkeyed_cons rfl] at h
      cases d' with
      | close closing' => exact ⟨.nil, (List.cons.inj h).2⟩
      | more first' more' => cases first' <;> simp at h
  | more first more =>
      rw [Body.yield, unkeyed_append, List.append_assoc] at h
      cases d' with
      | close closing' => cases first <;> simp [unkeyed, Token.isVar] at h
      | more first' more' =>
          rw [Body.yield, List.append_assoc] at h
          obtain ⟨hfirst, hmore⟩ := first.declaresFree_of_unkeyed first'
            (more.endsStatement_next_unkeyed rest) (more'.endsStatement_next rest') h
          obtain ⟨hfree, hrest⟩ := more.declaresFree_of_unkeyed more' hmore
          exact ⟨DeclaresFree.cons_iff.2 ⟨hfirst, hfree⟩, hrest⟩

end

/-- Without the keyword a script is a script just when no name of a command is declared. -/
theorem Block.exists_unkeyed_iff (d : Block) :
    (∃ d' : Block, d'.yield = unkeyed d.yield) ↔ DeclaresFree d.trees := by
  constructor
  · rintro ⟨d', h⟩
    exact (d.declaresFree_of_unkeyed d' (congrArg (· ++ []) h)).1
  · intro h
    obtain ⟨d', hyield, -⟩ := d.exists_unkeyed h
    exact ⟨d', hyield⟩

theorem Block.undeclared_eq {d d' : Block} (h : d'.yield = unkeyed d.yield) :
    FileChores.Statement.undeclaredBlock d'.trees =
      FileChores.Statement.undeclaredBlock d.trees := by
  obtain ⟨d'', hyield, htrees⟩ := d.exists_unkeyed (d.exists_unkeyed_iff.1 ⟨d', h⟩)
  obtain rfl := Block.yield_injective (h.trans hyield.symm)
  exact htrees

end FileChores.Grammar
