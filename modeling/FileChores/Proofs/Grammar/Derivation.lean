import FileChores.Lexeme
import FileChores.Program

/-!
# Derivations of the grammar

A derivation is a word of the grammar together with the rules that make it, every lexeme in its
place. `yield` reads off the lexemes from left to right, `tree` the program that they stand for.

    block     ::= '{' body
    body      ::= '}' | statement body
    statement ::= 'var' word '=' expr | word '=' expr | command '(' arguments? ')'
                | 'if' condition block ('else' block)? | 'for' condition block
    condition ::= expr ('==' | '!=' | '>' | '<') expr
    expr      ::= primary (('+' | '-') primary)*
    primary   ::= text | number | word | query '(' arguments? ')'
    arguments ::= expr (',' expr)*

The side conditions on names are part of a derivation: a word that names a command cannot be
assigned to, and a word that names a query cannot stand alone in an expression.
-/

namespace FileChores

def Operator.token : Operator → Token
  | add => .plus
  | sub => .minus

def Comparison.token : Comparison → Token
  | equal => .equal
  | notEqual => .notEqual
  | greater => .greater
  | less => .less

end FileChores

namespace FileChores.Grammar

mutual

inductive Primary
  | number (value : Float) (pos : Position)
  | text (content : String) (pos : Position)
  | word (name : String) (pos : Position)
      (plain : ∀ command : Command, command.isQuery = true → command.name ≠ name)
  | query (command : Command) (isQuery : command.isQuery = true) (pos : Position) (args : Call)

inductive Call
  | empty (opening closing : Position)
  | args (opening : Position) (first : Expr) (more : Arguments)

/-- What follows an argument, up to the closing parenthesis. -/
inductive Arguments
  | close (closing : Position)
  | comma (pos : Position) (next : Expr) (more : Arguments)

inductive Expr
  | mk (first : Primary) (chain : Chain)

inductive Chain
  | done
  | link (op : Operator) (pos : Position) (next : Primary) (more : Chain)

end

structure Condition where
  left : Expr
  op : Comparison
  pos : Position
  right : Expr

mutual

inductive Statement
  | declare (pos : Position) (name : String) (namePos signPos : Position) (value : Expr)
  | assign (name : String) (pos : Position) (free : ∀ command : Command, command.name ≠ name)
      (signPos : Position) (value : Expr)
  | branch (pos : Position) (condition : Condition) (thenBlock : Block) (elseBlock : Else)
  | loop (pos : Position) (condition : Condition) (body : Block)
  | call (command : Command) (pos : Position) (args : Call)

inductive Else
  | none
  | block (pos : Position) (block : Block)

inductive Block
  | mk (opening : Position) (body : Body)

inductive Body
  | close (closing : Position)
  | more (first : Statement) (rest : Body)

end

/-! ## The lexemes of a derivation -/

mutual

@[simp] def Primary.yield : Primary → List Lexeme
  | .number value pos => [⟨.number value, pos⟩]
  | .text content pos => [⟨.text content, pos⟩]
  | .word name pos _ => [⟨.word name, pos⟩]
  | .query command _ pos args => ⟨.word command.name, pos⟩ :: args.yield

@[simp] def Call.yield : Call → List Lexeme
  | .empty opening closing => [⟨.openParen, opening⟩, ⟨.closeParen, closing⟩]
  | .args opening first more => ⟨.openParen, opening⟩ :: (first.yield ++ more.yield)

@[simp] def Arguments.yield : Arguments → List Lexeme
  | .close closing => [⟨.closeParen, closing⟩]
  | .comma pos next more => ⟨.comma, pos⟩ :: (next.yield ++ more.yield)

@[simp] def Expr.yield : Expr → List Lexeme
  | .mk first chain => first.yield ++ chain.yield

@[simp] def Chain.yield : Chain → List Lexeme
  | .done => []
  | .link op pos next more => ⟨op.token, pos⟩ :: (next.yield ++ more.yield)

end

def Condition.yield (condition : Condition) : List Lexeme :=
  condition.left.yield ++
    ⟨condition.op.token, condition.pos⟩ :: condition.right.yield

mutual

@[simp] def Statement.yield : Statement → List Lexeme
  | .declare pos name namePos signPos value =>
      ⟨.varKeyword, pos⟩ :: ⟨.word name, namePos⟩ :: ⟨.assign, signPos⟩ :: value.yield
  | .assign name pos _ signPos value => ⟨.word name, pos⟩ :: ⟨.assign, signPos⟩ :: value.yield
  | .branch pos condition thenBlock elseBlock =>
      ⟨.ifKeyword, pos⟩ :: (condition.yield ++ (thenBlock.yield ++ elseBlock.yield))
  | .loop pos condition body => ⟨.forKeyword, pos⟩ :: (condition.yield ++ body.yield)
  | .call command pos args => ⟨.word command.name, pos⟩ :: args.yield

@[simp] def Else.yield : Else → List Lexeme
  | .none => []
  | .block pos block => ⟨.elseKeyword, pos⟩ :: block.yield

@[simp] def Block.yield : Block → List Lexeme
  | .mk opening body => ⟨.openBrace, opening⟩ :: body.yield

@[simp] def Body.yield : Body → List Lexeme
  | .close closing => [⟨.closeBrace, closing⟩]
  | .more first rest => first.yield ++ rest.yield

end

/-! ## The tree of a derivation

A statement stands at its first lexeme, an operation at its operator, a query at its name, a leaf
at its own lexeme, and a condition where its left side stands. -/

mutual

@[simp] def Primary.tree : Primary → FileChores.Expr
  | .number value pos => .number value pos
  | .text content pos => .text content pos
  | .word name pos _ => .word name pos
  | .query command _ pos args => .query command args.trees pos

@[simp] def Call.trees : Call → List FileChores.Expr
  | .empty _ _ => []
  | .args _ first more => first.tree :: more.trees

@[simp] def Arguments.trees : Arguments → List FileChores.Expr
  | .close _ => []
  | .comma _ next more => next.tree :: more.trees

@[simp] def Expr.tree : Expr → FileChores.Expr
  | .mk first chain => chain.tree first.tree

@[simp] def Chain.tree (left : FileChores.Expr) : Chain → FileChores.Expr
  | .done => left
  | .link op pos next more => more.tree (.binary op left next.tree pos)

end

def Condition.tree (condition : Condition) : FileChores.Condition :=
  ⟨condition.left.tree, condition.op, condition.right.tree, condition.left.tree.pos⟩

mutual

@[simp] def Statement.tree : Statement → FileChores.Statement
  | .declare pos name _ _ value => .declare name value.tree pos
  | .assign name pos _ _ value => .assign name value.tree pos
  | .branch pos condition thenBlock elseBlock =>
      .branch condition.tree thenBlock.trees elseBlock.trees? pos
  | .loop pos condition body => .loop condition.tree body.trees pos
  | .call command pos args => .call command args.trees pos

@[simp] def Else.trees? : Else → Option FileChores.Block
  | .none => Option.none
  | .block _ block => some block.trees

@[simp] def Block.trees : Block → FileChores.Block
  | .mk _ body => body.trees

@[simp] def Body.trees : Body → FileChores.Block
  | .close _ => []
  | .more first rest => first.tree :: rest.trees

end

def Block.program (block : Block) : Program := ⟨block.trees⟩

end FileChores.Grammar
