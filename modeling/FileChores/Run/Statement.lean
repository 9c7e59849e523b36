import FileChores.Run.Expression

/-!
# Running statements

The meaning of statements as steps of a machine. Only a loop can run on for ever: each execution of
a loop is given up when the setting's patience is spent, and a run in which no loop is given up is
the same under every greater patience.
-/

namespace FileChores.Run

variable {σ : Type}

/-- Stops a loop that has made all the iterations it may make and is to make one more. -/
def checkLimit (limit : Option Nat) (pos : Position) (done : Nat) : Run σ Unit :=
  match limit with
  | some limit =>
      if limit ≤ done then do
        record (.loopLimitReached limit pos)
        fault (.loopLimit limit pos)
      else return
  | none => return

/-- A loop that has made `done` iterations. The condition is evaluated before each iteration and
once more at the end. -/
def iterate (limit : Option Nat) (pos : Position) (condition : Run σ Bool) (body : Run σ Unit) :
    (patience done : Nat) → Run σ Unit
  | 0, _ => throw .unfinished
  | patience + 1, done => do
      if ← condition then
        checkLimit limit pos done
        body
        iterate limit pos condition body patience (done + 1)
      else
        record (.loopFinished done pos)

mutual

def execute (setting : Setting σ) : Statement → Run σ Unit
  | .declare name value pos | .assign name value pos => do
      enter pos
      assign name (← evaluate setting value)
  | .branch condition thenBlock elseBlock pos => do
      enter pos
      if ← test setting condition then executeBlock setting thenBlock
      else executeElse setting elseBlock
  | .loop condition body pos => do
      enter pos
      iterate setting.limits.maxIterations pos (test setting condition) (executeBlock setting body)
        setting.patience 0
  | .call command args pos => do
      enter pos
      let _ ← call setting command (← evaluateAll setting args) pos

def executeBlock (setting : Setting σ) : List Statement → Run σ Unit
  | [] => return
  | first :: rest => do
      execute setting first
      executeBlock setting rest

def executeElse (setting : Setting σ) : Option (List Statement) → Run σ Unit
  | none => return
  | some block => executeBlock setting block

end

end FileChores.Run
