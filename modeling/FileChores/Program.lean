import FileChores.Command
import FileChores.Text.Position

/-!
# Programs

A script as a tree: one block of statements, over expressions and conditions. Every node carries
the position that an error about it names.
-/

namespace FileChores

/-- Both operators bind equally and to the left. -/
inductive Operator
  | add
  | sub
  deriving DecidableEq, Repr

inductive Comparison
  | equal
  | notEqual
  | greater
  | less
  deriving DecidableEq, Repr

namespace Comparison

def symbol : Comparison → String
  | equal => "=="
  | notEqual => "!="
  | greater => ">"
  | less => "<"

end Comparison

inductive Expr
  | number (value : Float) (pos : Position)
  | text (content : String) (pos : Position)
  /-- A bare word: the value it is bound to, or its own name when it is unbound. -/
  | word (name : String) (pos : Position)
  | binary (op : Operator) (left right : Expr) (pos : Position)
  /-- A command called for its value. -/
  | query (command : Command) (args : List Expr) (pos : Position)

namespace Expr

def pos : Expr → Position
  | number _ pos | text _ pos | word _ pos | binary _ _ _ pos | query _ _ pos => pos

mutual

/-- Equality as trees, positions included. Numbers are compared as IEEE numbers. -/
def same : Expr → Expr → Bool
  | number x pos, number x' pos' => x == x' && pos == pos'
  | text content pos, text content' pos' => content == content' && pos == pos'
  | word name pos, word name' pos' => name == name' && pos == pos'
  | binary op left right pos, binary op' left' right' pos' =>
      op == op' && same left left' && same right right' && pos == pos'
  | query command args pos, query command' args' pos' =>
      command == command' && sameAll args args' && pos == pos'
  | _, _ => false

def sameAll : List Expr → List Expr → Bool
  | [], [] => true
  | first :: rest, first' :: rest' => same first first' && sameAll rest rest'
  | _, _ => false

end

instance : BEq Expr := ⟨same⟩

end Expr

structure Condition where
  left : Expr
  op : Comparison
  right : Expr
  pos : Position
  deriving BEq

inductive Statement
  | declare (name : String) (value : Expr) (pos : Position)
  | assign (name : String) (value : Expr) (pos : Position)
  | branch (condition : Condition) (thenBlock : List Statement)
      (elseBlock : Option (List Statement)) (pos : Position)
  | loop (condition : Condition) (body : List Statement) (pos : Position)
  | call (command : Command) (args : List Expr) (pos : Position)

namespace Statement

def pos : Statement → Position
  | declare _ _ pos | assign _ _ pos | branch _ _ _ pos | loop _ _ pos | call _ _ pos => pos

mutual

/-- Equality as trees, positions included. -/
def same : Statement → Statement → Bool
  | declare name value pos, declare name' value' pos'
  | assign name value pos, assign name' value' pos' =>
      name == name' && value == value' && pos == pos'
  | branch condition thenBlock elseBlock pos, branch condition' thenBlock' elseBlock' pos' =>
      condition == condition' && sameBlock thenBlock thenBlock' &&
        sameElse elseBlock elseBlock' && pos == pos'
  | loop condition body pos, loop condition' body' pos' =>
      condition == condition' && sameBlock body body' && pos == pos'
  | call command args pos, call command' args' pos' =>
      command == command' && args == args' && pos == pos'
  | _, _ => false

def sameBlock : List Statement → List Statement → Bool
  | [], [] => true
  | first :: rest, first' :: rest' => same first first' && sameBlock rest rest'
  | _, _ => false

def sameElse : Option (List Statement) → Option (List Statement) → Bool
  | none, none => true
  | some block, some block' => sameBlock block block'
  | _, _ => false

end

instance : BEq Statement := ⟨same⟩

end Statement

abbrev Block := List Statement

structure Program where
  body : Block
  deriving BEq

end FileChores
