import FileChores.Run.Dispatch

/-!
# Evaluating expressions

The meaning of expressions and conditions as steps of a machine. Operands and arguments are
evaluated from left to right, and a query is a command that runs when it is reached.
-/

namespace FileChores.Run

variable {σ : Type}

def combine (op : Operator) (left right : Value) (pos : Position) : Run σ Value :=
  match op with
  | .add => return left.add right
  | .sub =>
      match left.sub? right with
      | some value => return value
      | none => fault (.textSubtraction left.describe right.describe pos)

mutual

def evaluate (setting : Setting σ) : Expr → Run σ Value
  | .number x _ => return .number x
  | .text content _ => return .text content
  | .word name _ => lookup name
  | .binary op left right pos => do
      let left ← evaluate setting left
      let right ← evaluate setting right
      combine op left right pos
  | .query command args pos => do
      let args ← evaluateAll setting args
      return (← call setting command args pos).getD failedQuery

def evaluateAll (setting : Setting σ) : List Expr → Run σ (List Value)
  | [] => return []
  | first :: rest => do
      let value ← evaluate setting first
      return value :: (← evaluateAll setting rest)

end

def test (setting : Setting σ) (condition : Condition) : Run σ Bool := do
  let left ← evaluate setting condition.left
  let right ← evaluate setting condition.right
  let result := condition.op.holds left right
  record (.compared left condition.op right result)
  return result

end FileChores.Run
