import FileChores.Program.Source

/-!
# Reading by places

The parser over all tokens at once, with the end of the file as the last of them. It looks at tokens
by their places and keeps nothing but the place of the next one, also after a failure. To look at a
place where there is no token, to go back, or to go past the end of the file is a failure of its
own.

Phrases are read within a depth, which goes down by one from a phrase to those in it. It starts at
what no phrase over the tokens reaches.
-/

namespace FileChores

/-- The tokens with their positions. The end of the file is no token, and has a position. -/
def Lexemes.slots (lexemes : Lexemes) : List (Option Token × Position) :=
  (lexemes.list.map fun x => (some x.token, x.pos)) ++ [(none, lexemes.finish)]

inductive Misreading
  | wrong (e : ParseError)
  | astray
  deriving BEq, Repr

/-- Reading from a place on. It comes to a value or stops, and leaves a place, or it is given up. -/
abbrev Cursor (α : Type) := ReaderT Lexemes (ExceptT Misreading (StateT Nat Option)) α

namespace Cursor

variable {α β : Type}

def slotAt (place : Nat) : Cursor (Option Token × Position) := do
  match (← read).slots[place]? with
  | some slot => return slot
  | none => throw .astray

def peek : Cursor (Option Token × Position) := do
  slotAt (← get)

def previous : Cursor (Option Token × Position) := do
  slotAt ((← get) - 1)

def ahead : Cursor (Option (Option Token × Position)) := do
  return (← read).slots[(← get) + 1]?

def atEnd : Cursor Bool := do
  return (← peek).1.isNone

def goTo (place : Nat) : Cursor Unit := do
  if (← get) ≤ place ∧ place < (← read).slots.length then set place else throw .astray

def advance : Cursor Unit := do
  unless ← atEnd do goTo ((← get) + 1)
  discard previous

/-- Tokens are compared by their kind alone. -/
def isLike (wanted : Token) (found : Option Token) : Bool :=
  found.map Token.ctorIdx == some wanted.ctorIdx

def check (wanted : Token) : Cursor Bool := do
  return isLike wanted (← peek).1

def accept (wanted : Token) : Cursor Bool := do
  if ← check wanted then
    advance
    return true
  else return false

def fail (problem : ParseProblem) : Cursor α := do
  let (found, pos) ← peek
  throw (.wrong ⟨problem, found, pos⟩)

def expect (wanted : Token) (problem : ParseProblem) : Cursor Unit := do
  if ← check wanted then advance else fail problem

/-! ## Depth -/

/-- How deep phrases may lie in one another: with each token, and with the end of the file, not more
than four deeper. -/
def depth : Cursor Nat := do
  return 4 * (← read).slots.length

def tooDeep : Cursor α :=
  fun _ _ => none

/-! ## Expressions -/

mutual

def primaryWithin : Nat → Cursor Expr
  | 0 => tooDeep
  | depth + 1 => do
      let (token, pos) ← peek
      match token with
      | some (.number value) => do
          advance
          return .number value pos
      | some (.text content) => do
          advance
          return .text content pos
      | some (.word name) => do
          advance
          match (Command.ofName? name).filter Command.isQuery with
          | some command => return .query command (← argumentsWithin depth command) pos
          | none => return .word name pos
      | _ => fail .expression

def chainWithin : Nat → Expr → Cursor Expr
  | 0, _ => tooDeep
  | depth + 1, left => do
      if ← accept .plus then linkWithin depth .add left
      else if ← accept .minus then linkWithin depth .sub left
      else return left

def linkWithin : Nat → Operator → Expr → Cursor Expr
  | 0, _, _ => tooDeep
  | depth + 1, op, left => do
      let (_, pos) ← previous
      let right ← primaryWithin depth
      chainWithin depth (.binary op left right pos)

def expressionWithin : Nat → Cursor Expr
  | 0 => tooDeep
  | depth + 1 => do
      chainWithin depth (← primaryWithin depth)

def argumentsWithin : Nat → Command → Cursor (List Expr)
  | 0, _ => tooDeep
  | depth + 1, command => do
      expect .openParen (.openParen command)
      let args ← argumentListWithin depth
      expect .closeParen (.closeParen command)
      return args

def argumentListWithin : Nat → Cursor (List Expr)
  | 0 => tooDeep
  | depth + 1 => do
      if ← check .closeParen then return []
      else
        let first ← expressionWithin depth
        return first :: (← moreArgumentsWithin depth)

def moreArgumentsWithin : Nat → Cursor (List Expr)
  | 0 => tooDeep
  | depth + 1 => do
      if ← accept .comma then
        let next ← expressionWithin depth
        return next :: (← moreArgumentsWithin depth)
      else return []

end

def expression : Cursor Expr := do
  expressionWithin (← depth)

def arguments (command : Command) : Cursor (List Expr) := do
  argumentsWithin (← depth) command

def comparison? : Token → Option Comparison
  | .equal => some .equal
  | .notEqual => some .notEqual
  | .greater => some .greater
  | .less => some .less
  | _ => none

def comparison : Cursor Comparison := do
  match (← peek).1.bind comparison? with
  | some op => do
      advance
      return op
  | none => fail .comparison

def condition : Cursor Condition := do
  let left ← expression
  let op ← comparison
  let right ← expression
  return ⟨left, op, right, left.pos⟩

/-! ## Statements -/

def value (missing : ParseProblem) : Cursor Expr := do
  expect .assign missing
  expression

def declaration (pos : Position) : Cursor Statement := do
  match (← peek).1 with
  | some (.word name) => do
      advance
      return .declare name (← value .declareSign) pos
  | _ => fail .declaredName

def named (name : String) (pos : Position) : Cursor Statement := do
  match Command.ofName? name with
  | some command => do
      advance
      return .call command (← arguments command) pos
  | none => do
      if isLike .openParen ((← ahead).bind Prod.fst) then fail (.unknownCommand name)
      else
        advance
        return .assign name (← value .assignSign) pos

def blockEnds : Cursor Bool :=
  check .closeBrace <||> atEnd

mutual

def statementWithin : Nat → Cursor Statement
  | 0 => tooDeep
  | depth + 1 => do
      let (token, pos) ← peek
      if ← accept .varKeyword then declaration pos
      else if ← accept .ifKeyword then branchWithin depth pos
      else if ← accept .forKeyword then
        let test ← condition
        return .loop test (← blockWithin depth .loopBody) pos
      else
        match token with
        | some (.word name) => named name pos
        | _ => fail .statement

def branchWithin : Nat → Position → Cursor Statement
  | 0, _ => tooDeep
  | depth + 1, pos => do
      let test ← condition
      let thenBlock ← blockWithin depth .thenBranch
      return .branch test thenBlock (← elseBlockWithin depth) pos

def elseBlockWithin : Nat → Cursor (Option Block)
  | 0 => tooDeep
  | depth + 1 => do
      if ← accept .elseKeyword then return some (← blockWithin depth .elseBranch) else return none

def blockWithin : Nat → BlockRole → Cursor Block
  | 0, _ => tooDeep
  | depth + 1, role => do
      expect .openBrace (.openBrace role)
      let body ← statementsWithin depth
      expect .closeBrace .closeBrace
      return body

def statementsWithin : Nat → Cursor Block
  | 0 => tooDeep
  | depth + 1 => do
      if ← blockEnds then return []
      else
        let first ← statementWithin depth
        return first :: (← statementsWithin depth)

end

def block (role : BlockRole) : Cursor Block := do
  blockWithin (← depth) role

def program : Cursor Program := do
  let body ← block .script
  if ← atEnd then return ⟨body⟩ else fail .endOfScript

end Cursor

end FileChores
