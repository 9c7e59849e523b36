import FileChores.Program

/-!
# Programs without their places

Two programs that differ in positions only are the same once every position is set to the start of
the script.
-/

namespace FileChores

namespace Expr

mutual

def unplaced : Expr → Expr
  | number value _ => number value .start
  | text content _ => text content .start
  | word name _ => word name .start
  | binary op left right _ => binary op (unplaced left) (unplaced right) .start
  | query command args _ => query command (unplacedAll args) .start

def unplacedAll : List Expr → List Expr
  | [] => []
  | first :: rest => unplaced first :: unplacedAll rest

end

end Expr

def Condition.unplaced (condition : Condition) : Condition :=
  ⟨condition.left.unplaced, condition.op, condition.right.unplaced, .start⟩

namespace Statement

mutual

def unplaced : Statement → Statement
  | declare name value _ => declare name value.unplaced .start
  | assign name value _ => assign name value.unplaced .start
  | branch condition thenBlock elseBlock _ =>
      branch condition.unplaced (unplacedBlock thenBlock) (unplacedElse elseBlock) .start
  | loop condition body _ => loop condition.unplaced (unplacedBlock body) .start
  | call command args _ => call command (Expr.unplacedAll args) .start

def unplacedBlock : List Statement → List Statement
  | [] => []
  | first :: rest => unplaced first :: unplacedBlock rest

def unplacedElse : Option (List Statement) → Option (List Statement)
  | none => none
  | some block => some (unplacedBlock block)

end

end Statement

def Program.unplaced (program : Program) : Program :=
  ⟨Statement.unplacedBlock program.body⟩

end FileChores
