import FileChores.Session

/-!
# Programs in other places

A text that stands somewhere else is cut, read and run alike, with other positions. `moved f`
applies `f` to every position of a lexeme, of a tree, of a failure, or of what a run tells.
-/

namespace FileChores

/-! ## Lexemes -/

def Lexeme.moved (f : Position → Position) (lexeme : Lexeme) : Lexeme :=
  ⟨lexeme.token, f lexeme.pos⟩

def Lexemes.moved (f : Position → Position) (lexemes : Lexemes) : Lexemes :=
  ⟨lexemes.list.map (Lexeme.moved f), f lexemes.finish⟩

def LexError.moved (f : Position → Position) (e : LexError) : LexError :=
  ⟨e.problem, f e.pos⟩

/-- The failure, in a script that ends at `finish`. -/
def ParseError.moved (f : Position → Position) (finish : Position) (e : ParseError) : ParseError :=
  { e with pos := match e.found with
    | some _ => f e.pos
    | none => finish }

def Stuck.moved (f : Position → Position) (stuck : Stuck) : Stuck :=
  ⟨stuck.problem, stuck.rest.map (Lexeme.moved f)⟩

/-! ## Trees -/

namespace Expr

mutual

def moved (f : Position → Position) : Expr → Expr
  | number value pos => number value (f pos)
  | text content pos => text content (f pos)
  | word name pos => word name (f pos)
  | binary op left right pos => binary op (moved f left) (moved f right) (f pos)
  | query command args pos => query command (movedAll f args) (f pos)

def movedAll (f : Position → Position) : List Expr → List Expr
  | [] => []
  | first :: rest => moved f first :: movedAll f rest

end

theorem pos_moved (f : Position → Position) (e : Expr) : (e.moved f).pos = f e.pos := by
  cases e <;> rfl

mutual

@[simp] theorem moved_id (e : Expr) : e.moved id = e := by
  cases e with
  | number value pos | text content pos | word name pos => rfl
  | binary op left right pos => rw [moved, moved_id left, moved_id right, id]
  | query command args pos => rw [moved, movedAll_id args, id]

@[simp] theorem movedAll_id (es : List Expr) : movedAll id es = es := by
  cases es with
  | nil => rfl
  | cons first rest => rw [movedAll, moved_id first, movedAll_id rest]

end

end Expr

def Condition.moved (f : Position → Position) (condition : Condition) : Condition :=
  ⟨condition.left.moved f, condition.op, condition.right.moved f, f condition.pos⟩

@[simp] theorem Condition.moved_id (condition : Condition) : condition.moved id = condition := by
  rw [moved, Expr.moved_id, Expr.moved_id, id]

namespace Statement

mutual

def moved (f : Position → Position) : Statement → Statement
  | declare name value pos => declare name (value.moved f) (f pos)
  | assign name value pos => assign name (value.moved f) (f pos)
  | branch condition thenBlock elseBlock pos =>
      branch (condition.moved f) (movedBlock f thenBlock) (movedElse f elseBlock) (f pos)
  | loop condition body pos => loop (condition.moved f) (movedBlock f body) (f pos)
  | call command args pos => call command (Expr.movedAll f args) (f pos)

def movedBlock (f : Position → Position) : List Statement → List Statement
  | [] => []
  | first :: rest => moved f first :: movedBlock f rest

def movedElse (f : Position → Position) : Option (List Statement) → Option (List Statement)
  | none => none
  | some block => some (movedBlock f block)

end

theorem length_movedBlock (f : Position → Position) (block : List Statement) :
    (movedBlock f block).length = block.length := by
  induction block with
  | nil => rfl
  | cons first rest ih => simp [movedBlock, ih]

mutual

@[simp] theorem moved_id (statement : Statement) : statement.moved id = statement := by
  cases statement with
  | declare name value pos | assign name value pos => rw [moved, Expr.moved_id, id]
  | branch condition thenBlock elseBlock pos =>
      rw [moved, Condition.moved_id, movedBlock_id thenBlock, movedElse_id elseBlock, id]
  | loop condition body pos => rw [moved, Condition.moved_id, movedBlock_id body, id]
  | call command args pos => rw [moved, Expr.movedAll_id, id]

@[simp] theorem movedBlock_id (block : List Statement) : movedBlock id block = block := by
  cases block with
  | nil => rfl
  | cons first rest => rw [movedBlock, moved_id first, movedBlock_id rest]

@[simp] theorem movedElse_id (block : Option (List Statement)) : movedElse id block = block := by
  cases block with
  | none => rfl
  | some block => rw [movedElse, movedBlock_id block]

end

end Statement

def Program.moved (f : Position → Position) (program : Program) : Program :=
  ⟨Statement.movedBlock f program.body⟩

@[simp] theorem Program.moved_id (program : Program) : program.moved id = program := by
  rw [moved, Statement.movedBlock_id]

/-! ## What a run tells -/

namespace Fault

def moved (f : Position → Position) : Fault → Fault
  | textSubtraction left right pos => textSubtraction left right (f pos)
  | argumentCount command given pos => argumentCount command given (f pos)
  | loopLimit limit pos => loopLimit limit (f pos)

@[simp] theorem moved_id (fault : Fault) : fault.moved id = fault := by
  cases fault <;> rfl

end Fault

namespace Halt

def moved (f : Position → Position) : Halt → Halt
  | fault e => fault (e.moved f)
  | unfinished => unfinished

@[simp] theorem moved_id (halt : Halt) : halt.moved id = halt := by
  cases halt with
  | fault e => rw [moved, Fault.moved_id]
  | unfinished => rfl

end Halt

namespace Outcome

def moved (f : Position → Position) : Outcome → Outcome
  | finished => finished
  | aborted fault => aborted (fault.moved f)
  | unfinished => unfinished

@[simp] theorem moved_id (outcome : Outcome) : outcome.moved id = outcome := by
  cases outcome with
  | finished | unfinished => rfl
  | aborted fault => rw [moved, Fault.moved_id]

end Outcome

namespace Event

def moved (f : Position → Position) : Event → Event
  | statement pos => statement (f pos)
  | aborted fault => aborted (fault.moved f)
  | dispatched command args pos => dispatched command args (f pos)
  | waitCapped requested cap pos => waitCapped requested cap (f pos)
  | commandFailed command e pos => commandFailed command e (f pos)
  | loopLimitReached limit pos => loopLimitReached limit (f pos)
  | loopFinished iterations pos => loopFinished iterations (f pos)
  | event => event

@[simp] theorem moved_id (event : Event) : event.moved id = event := by
  cases event <;> simp [moved]

end Event

def Line.moved (f : Position → Position) (line : Line) : Line :=
  { line with pos := f line.pos }

end FileChores
