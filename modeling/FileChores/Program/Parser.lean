import FileChores.Lexeme
import FileChores.Program
import FileChores.Program.ParseError

/-!
# Reading a program from lexemes

Recursive descent with one lexeme of lookahead, two at the start of a statement. Each step returns
what it leaves, which is shorter than what it was given. A step that fails stops in front of the
first lexeme that cannot stand where it stands.

    block     ::= '{' statement* '}'
    statement ::= 'var' word '=' expr | word '=' expr | command '(' arguments? ')'
                | 'if' condition block ('else' block)? | 'for' condition block
    condition ::= expr ('==' | '!=' | '>' | '<') expr
    expr      ::= primary (('+' | '-') primary)*
    primary   ::= text | number | word | query '(' arguments? ')'
    arguments ::= expr (',' expr)*
-/

namespace FileChores

/-- A failure, with the lexemes from the offending one on. -/
structure Stuck where
  problem : ParseProblem
  rest : List Lexeme

namespace Stuck

def error (stuck : Stuck) (finish : Position) : ParseError :=
  match stuck.rest with
  | [] => ⟨stuck.problem, none, finish⟩
  | next :: _ => ⟨stuck.problem, some next.token, next.pos⟩

end Stuck

/-- What was read off the front of `input`, and what is left of it. -/
structure Parsed (α : Type) (input : List Lexeme) where
  value : α
  rest : List Lexeme
  shorter : rest.length < input.length

namespace Expr

mutual

def parsePrimary : (input : List Lexeme) → Except Stuck (Parsed Expr input)
  | ⟨.number value, pos⟩ :: rest => .ok ⟨.number value pos, rest, by simp⟩
  | ⟨.text content, pos⟩ :: rest => .ok ⟨.text content pos, rest, by simp⟩
  | ⟨.word name, pos⟩ :: rest =>
      match (Command.ofName? name).filter Command.isQuery with
      | some command => do
          let args ← parseCall command rest
          return ⟨.query command args.value pos, args.rest, by
            have := args.shorter
            simp only [List.length_cons]
            omega⟩
      | none => .ok ⟨.word name pos, rest, by simp⟩
  | input => .error ⟨.expression, input⟩
  termination_by input => 2 * input.length

def parseChain (left : Expr) :
    (input : List Lexeme) →
      Except Stuck (Expr × { rest : List Lexeme // rest.length ≤ input.length })
  | ⟨.plus, pos⟩ :: rest => do
      let right ← parsePrimary rest
      have := right.shorter
      let (whole, after) ← parseChain (.binary .add left right.value pos) right.rest
      return (whole, ⟨after.1, by have := after.2; simp only [List.length_cons]; omega⟩)
  | ⟨.minus, pos⟩ :: rest => do
      let right ← parsePrimary rest
      have := right.shorter
      let (whole, after) ← parseChain (.binary .sub left right.value pos) right.rest
      return (whole, ⟨after.1, by have := after.2; simp only [List.length_cons]; omega⟩)
  | input => .ok (left, ⟨input, Nat.le_refl _⟩)
  termination_by input => 2 * input.length

def parse (input : List Lexeme) : Except Stuck (Parsed Expr input) := do
  let first ← parsePrimary input
  have := first.shorter
  let (whole, after) ← parseChain first.value first.rest
  return ⟨whole, after.1, by have := after.2; omega⟩
  termination_by 2 * input.length + 1

def parseCall (command : Command) : (input : List Lexeme) → Except Stuck (Parsed (List Expr) input)
  | ⟨.openParen, _⟩ :: ⟨.closeParen, _⟩ :: rest => .ok ⟨[], rest, by
      simp only [List.length_cons]
      omega⟩
  | ⟨.openParen, _⟩ :: rest => do
      let first ← parse rest
      have := first.shorter
      let more ← parseArguments command first.rest
      return ⟨first.value :: more.value, more.rest, by
        have := more.shorter
        simp only [List.length_cons]
        omega⟩
  | input => .error ⟨.openParen command, input⟩
  termination_by input => 2 * input.length

def parseArguments (command : Command) :
    (input : List Lexeme) → Except Stuck (Parsed (List Expr) input)
  | ⟨.closeParen, _⟩ :: rest => .ok ⟨[], rest, by simp⟩
  | ⟨.comma, _⟩ :: rest => do
      let next ← parse rest
      have := next.shorter
      let more ← parseArguments command next.rest
      return ⟨next.value :: more.value, more.rest, by
        have := more.shorter
        simp only [List.length_cons]
        omega⟩
  | input => .error ⟨.closeParen command, input⟩
  termination_by input => 2 * input.length

end

end Expr

namespace Condition

def parseComparison : (input : List Lexeme) → Except Stuck (Parsed Comparison input)
  | ⟨.equal, _⟩ :: rest => .ok ⟨.equal, rest, by simp⟩
  | ⟨.notEqual, _⟩ :: rest => .ok ⟨.notEqual, rest, by simp⟩
  | ⟨.greater, _⟩ :: rest => .ok ⟨.greater, rest, by simp⟩
  | ⟨.less, _⟩ :: rest => .ok ⟨.less, rest, by simp⟩
  | input => .error ⟨.comparison, input⟩

def parse (input : List Lexeme) : Except Stuck (Parsed Condition input) := do
  let left ← Expr.parse input
  let op ← parseComparison left.rest
  let right ← Expr.parse op.rest
  return ⟨⟨left.value, op.value, right.value, left.value.pos⟩, right.rest, by
    have := left.shorter
    have := op.shorter
    have := right.shorter
    omega⟩

end Condition

namespace Statement

def parseValue (missing : ParseProblem) : (input : List Lexeme) → Except Stuck (Parsed Expr input)
  | ⟨.assign, _⟩ :: rest => do
      let value ← Expr.parse rest
      return ⟨value.value, value.rest, by
        have := value.shorter
        simp only [List.length_cons]
        omega⟩
  | input => .error ⟨missing, input⟩

mutual

def parse : (input : List Lexeme) → Except Stuck (Parsed Statement input)
  | ⟨.varKeyword, pos⟩ :: ⟨.word name, _⟩ :: rest => do
      let value ← parseValue .declareSign rest
      return ⟨.declare name value.value pos, value.rest, by
        have := value.shorter
        simp only [List.length_cons]
        omega⟩
  | ⟨.varKeyword, _⟩ :: rest => .error ⟨.declaredName, rest⟩
  | ⟨.ifKeyword, pos⟩ :: rest => do
      let condition ← Condition.parse rest
      have := condition.shorter
      let thenBlock ← parseBlock .thenBranch condition.rest
      have := thenBlock.shorter
      let (elseBlock, after) ← parseElse thenBlock.rest
      return ⟨.branch condition.value thenBlock.value elseBlock pos, after.1, by
        have := after.2
        simp only [List.length_cons]
        omega⟩
  | ⟨.forKeyword, pos⟩ :: rest => do
      let condition ← Condition.parse rest
      have := condition.shorter
      let body ← parseBlock .loopBody condition.rest
      return ⟨.loop condition.value body.value pos, body.rest, by
        have := body.shorter
        simp only [List.length_cons]
        omega⟩
  | ⟨.word name, pos⟩ :: rest =>
      match Command.ofName? name, rest with
      | some command, rest => do
          let args ← Expr.parseCall command rest
          return ⟨.call command args.value pos, args.rest, by
            have := args.shorter
            simp only [List.length_cons]
            omega⟩
      | none, ⟨.openParen, paren⟩ :: rest =>
          .error ⟨.unknownCommand name, ⟨.word name, pos⟩ :: ⟨.openParen, paren⟩ :: rest⟩
      | none, rest => do
          let value ← parseValue .assignSign rest
          return ⟨.assign name value.value pos, value.rest, by
            have := value.shorter
            simp only [List.length_cons]
            omega⟩
  | input => .error ⟨.statement, input⟩
  termination_by input => 2 * input.length

def parseElse : (input : List Lexeme) →
    Except Stuck (Option Block × { rest : List Lexeme // rest.length ≤ input.length })
  | ⟨.elseKeyword, _⟩ :: rest => do
      let block ← parseBlock .elseBranch rest
      return (some block.value, ⟨block.rest, by
        have := block.shorter
        simp only [List.length_cons]
        omega⟩)
  | input => .ok (none, ⟨input, Nat.le_refl _⟩)
  termination_by input => 2 * input.length

def parseBlock (role : BlockRole) : (input : List Lexeme) → Except Stuck (Parsed Block input)
  | ⟨.openBrace, _⟩ :: rest => do
      let body ← parseBody rest
      return ⟨body.value, body.rest, by
        have := body.shorter
        simp only [List.length_cons]
        omega⟩
  | input => .error ⟨.openBrace role, input⟩
  termination_by input => 2 * input.length

def parseBody (input : List Lexeme) : Except Stuck (Parsed Block input) :=
  match input with
  | [] => .error ⟨.closeBrace, []⟩
  | ⟨.closeBrace, _⟩ :: rest => .ok ⟨[], rest, by simp⟩
  | first :: rest => do
      let statement ← parse (first :: rest)
      have : statement.rest.length < rest.length + 1 := statement.shorter
      let more ← parseBody statement.rest
      return ⟨statement.value :: more.value, more.rest, by
        have := more.shorter
        simp only [List.length_cons]
        omega⟩
  termination_by 2 * input.length + 1
  decreasing_by
    all_goals simp only [List.length_cons]
    all_goals omega

end

end Statement

namespace Program

/-- The program that the lexemes are, nothing less and nothing more. -/
def parse (input : List Lexeme) : Except Stuck Program := do
  let body ← Statement.parseBlock .script input
  match body.rest with
  | [] => return ⟨body.value⟩
  | rest => throw ⟨.endOfScript, rest⟩

/-- One reading of the lexemes and what it leaves: nothing after a program, and after a failure
everything from the offending lexeme on. -/
def ofLexemes (lexemes : Lexemes) : Except ParseError Program × Lexemes :=
  match parse lexemes.list with
  | .ok program => (.ok program, { lexemes with list := [] })
  | .error stuck => (.error (stuck.error lexemes.finish), { lexemes with list := stuck.rest })

end Program

end FileChores
