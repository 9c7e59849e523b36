import FileChores.Proofs.Grammar.Derivation
import FileChores.Proofs.Printing.Sound

/-!
# Printing a program

A program is printed as its tokens with one space between them. Not every tree is a program that a
script can have: names have to be words, numbers have to be whole, and there are no parentheses that
could put an operation to the right of an operator.
-/

namespace FileChores

namespace Expr

def isBinary : Expr → Bool
  | binary .. => true
  | _ => false

mutual

def tokens : Expr → List Token
  | number value _ => [.number value]
  | text content _ => [.text content]
  | word name _ => [.word name]
  | binary op left right _ => tokens left ++ op.token :: tokens right
  | query command args _ => .word command.name :: callTokens args

def callTokens : List Expr → List Token
  | [] => [.openParen, .closeParen]
  | first :: more => .openParen :: (tokens first ++ moreTokens more)

def moreTokens : List Expr → List Token
  | [] => [.closeParen]
  | next :: more => .comma :: (tokens next ++ moreTokens more)

end

mutual

def WellFormed : Expr → Prop
  | number value _ => Number.IsWhole value
  | text _ _ => True
  | word name _ =>
      Token.IsName name ∧ ∀ command : Command, command.isQuery = true → command.name ≠ name
  | binary _ left right _ => WellFormed left ∧ WellFormed right ∧ right.isBinary = false
  | query command args _ => command.isQuery = true ∧ AllWellFormed args

def AllWellFormed : List Expr → Prop
  | [] => True
  | first :: rest => WellFormed first ∧ AllWellFormed rest

end

end Expr

namespace Condition

def tokens (condition : Condition) : List Token :=
  condition.left.tokens ++ condition.op.token :: condition.right.tokens

def WellFormed (condition : Condition) : Prop :=
  condition.left.WellFormed ∧ condition.right.WellFormed

end Condition

namespace Statement

mutual

def tokens : Statement → List Token
  | declare name value _ => .varKeyword :: .word name :: .assign :: value.tokens
  | assign name value _ => .word name :: .assign :: value.tokens
  | branch condition thenBlock elseBlock _ =>
      .ifKeyword :: (condition.tokens ++
        (.openBrace :: bodyTokens thenBlock ++ elseTokens elseBlock))
  | loop condition body _ => .forKeyword :: (condition.tokens ++ .openBrace :: bodyTokens body)
  | call command args _ => .word command.name :: Expr.callTokens args

def bodyTokens : List Statement → List Token
  | [] => [.closeBrace]
  | first :: rest => tokens first ++ bodyTokens rest

def elseTokens : Option (List Statement) → List Token
  | none => []
  | some block => .elseKeyword :: .openBrace :: bodyTokens block

end

mutual

def WellFormed : Statement → Prop
  | declare name value _ => Token.IsName name ∧ value.WellFormed
  | assign name value _ =>
      Token.IsName name ∧ (∀ command : Command, command.name ≠ name) ∧ value.WellFormed
  | branch condition thenBlock elseBlock _ =>
      condition.WellFormed ∧ AllWellFormed thenBlock ∧ ElseWellFormed elseBlock
  | loop condition body _ => condition.WellFormed ∧ AllWellFormed body
  | call _ args _ => Expr.AllWellFormed args

def AllWellFormed : List Statement → Prop
  | [] => True
  | first :: rest => WellFormed first ∧ AllWellFormed rest

def ElseWellFormed : Option (List Statement) → Prop
  | none => True
  | some block => AllWellFormed block

end

end Statement

namespace Program

def tokens (program : Program) : List Token :=
  .openBrace :: Statement.bodyTokens program.body

def print (program : Program) : String :=
  Token.spaced program.tokens

def WellFormed (program : Program) : Prop :=
  Statement.AllWellFormed program.body

end Program

/-! ## The tokens are sound -/

theorem Token.isName_command (command : Command) : IsName command.name := by
  cases command <;> exact ⟨⟨_, _, rfl, by decide, by decide⟩, by decide⟩

theorem Token.sound_operator (op : Operator) : op.token.Sound := by
  cases op <;> trivial

theorem Token.sound_comparison (op : Comparison) : op.token.Sound := by
  cases op <;> trivial

namespace Expr

open Token

mutual

theorem sound_tokens (e : Expr) (h : e.WellFormed) : ∀ token ∈ e.tokens, token.Sound := by
  cases e with
  | number value pos =>
      rw [tokens, List.forall_mem_singleton]
      exact h
  | text content pos =>
      rw [tokens, List.forall_mem_singleton]
      trivial
  | word name pos =>
      rw [tokens, List.forall_mem_singleton]
      exact h.1
  | binary op left right pos =>
      obtain ⟨hleft, hright, -⟩ := h
      simp only [tokens, List.forall_mem_append, List.forall_mem_cons]
      exact ⟨left.sound_tokens hleft, sound_operator op, right.sound_tokens hright⟩
  | query command args pos =>
      rw [tokens, List.forall_mem_cons]
      exact ⟨isName_command command, sound_callTokens args h.2⟩

theorem sound_callTokens (args : List Expr) (h : AllWellFormed args) :
    ∀ token ∈ callTokens args, token.Sound := by
  cases args with
  | nil => simp [callTokens, Sound]
  | cons first more =>
      simp only [callTokens, List.forall_mem_cons, List.forall_mem_append]
      exact ⟨trivial, first.sound_tokens h.1, sound_moreTokens more h.2⟩

theorem sound_moreTokens (args : List Expr) (h : AllWellFormed args) :
    ∀ token ∈ moreTokens args, token.Sound := by
  cases args with
  | nil => simp [moreTokens, Sound]
  | cons next more =>
      simp only [moreTokens, List.forall_mem_cons, List.forall_mem_append]
      exact ⟨trivial, next.sound_tokens h.1, sound_moreTokens more h.2⟩

end

end Expr

namespace Condition

theorem sound_tokens (condition : Condition) (h : condition.WellFormed) :
    ∀ token ∈ condition.tokens, token.Sound := by
  simp only [tokens, List.forall_mem_append, List.forall_mem_cons]
  exact ⟨condition.left.sound_tokens h.1, Token.sound_comparison _,
    condition.right.sound_tokens h.2⟩

end Condition

namespace Statement

open Token

mutual

theorem sound_tokens (statement : Statement) (h : statement.WellFormed) :
    ∀ token ∈ statement.tokens, token.Sound := by
  cases statement with
  | declare name value pos =>
      simp only [tokens, List.forall_mem_cons]
      exact ⟨trivial, h.1, trivial, value.sound_tokens h.2⟩
  | assign name value pos =>
      simp only [tokens, List.forall_mem_cons]
      exact ⟨h.1, trivial, value.sound_tokens h.2.2⟩
  | branch condition thenBlock elseBlock pos =>
      obtain ⟨hcondition, hthen, helse⟩ := h
      simp only [tokens, List.forall_mem_cons, List.forall_mem_append]
      exact ⟨trivial, condition.sound_tokens hcondition,
        ⟨trivial, sound_bodyTokens thenBlock hthen⟩, sound_elseTokens elseBlock helse⟩
  | loop condition body pos =>
      simp only [tokens, List.forall_mem_cons, List.forall_mem_append]
      exact ⟨trivial, condition.sound_tokens h.1, trivial, sound_bodyTokens body h.2⟩
  | call command args pos =>
      simp only [tokens, List.forall_mem_cons]
      exact ⟨isName_command command, Expr.sound_callTokens args h⟩

theorem sound_bodyTokens (body : List Statement) (h : AllWellFormed body) :
    ∀ token ∈ bodyTokens body, token.Sound := by
  cases body with
  | nil =>
      rw [bodyTokens, List.forall_mem_singleton]
      trivial
  | cons first rest =>
      rw [bodyTokens, List.forall_mem_append]
      exact ⟨first.sound_tokens h.1, sound_bodyTokens rest h.2⟩

theorem sound_elseTokens (elseBlock : Option (List Statement)) (h : ElseWellFormed elseBlock) :
    ∀ token ∈ elseTokens elseBlock, token.Sound := by
  cases elseBlock with
  | none => exact fun _ hmem => absurd hmem List.not_mem_nil
  | some block =>
      simp only [elseTokens, List.forall_mem_cons]
      exact ⟨trivial, trivial, sound_bodyTokens block h⟩

end

end Statement

theorem Program.sound_tokens {program : Program} (h : program.WellFormed) :
    ∀ token ∈ program.tokens, token.Sound := by
  rw [tokens, List.forall_mem_cons]
  exact ⟨trivial, Statement.sound_bodyTokens program.body h⟩

end FileChores
