import FileChores.Command
import FileChores.Text.Position
import FileChores.Token

/-!
# Errors of the grammar

What was wanted, or what was wrong, where reading a program stopped, and its wording.
-/

namespace FileChores

inductive BlockRole
  | script
  | thenBranch
  | elseBranch
  | loopBody
  deriving DecidableEq, Repr

inductive ParseProblem
  | openBrace (role : BlockRole)
  | closeBrace
  | declaredName
  | declareSign
  | assignSign
  | expression
  | comparison
  | openParen (command : Command)
  | closeParen (command : Command)
  | unknownCommand (name : String)
  | statement
  | endOfScript
  deriving DecidableEq, Repr

namespace ParseProblem

/-- The text of the problem when `found` names the lexeme at which reading stopped. -/
def message (found : String) : ParseProblem → String
  | openBrace .script => s!"Expected '\x7b' at start of script, found {found}"
  | openBrace .thenBranch => s!"Expected '\x7b' after if condition, found {found}"
  | openBrace .elseBranch => s!"Expected '\x7b' after 'else', found {found}"
  | openBrace .loopBody => s!"Expected '\x7b' after for condition, found {found}"
  | closeBrace => s!"Expected '\x7d' to close block, found {found}"
  | declaredName => s!"Expected identifier after 'var', found {found}"
  | declareSign => s!"Expected '=' after variable name, found {found}"
  | assignSign => s!"Expected '=' in assignment, found {found}"
  | expression => s!"Expected expression, found {found}"
  | comparison => s!"Expected comparison operator ('==', '!=', '>' or '<'), found {found}"
  | openParen command => s!"Expected '(' after {command.name}, found {found}"
  | closeParen command => s!"Expected ')' after arguments to {command.name}, found {found}"
  | unknownCommand name => s!"Unknown command '{name}'"
  | statement => s!"Invalid statement starting with {found}"
  | endOfScript => s!"Unexpected {found} after end of script block"

end ParseProblem

/-- Why a text is no program. `found` is missing at the end of the script. -/
structure ParseError where
  problem : ParseProblem
  found : Option Token
  pos : Position
  deriving BEq, Repr

namespace ParseError

def detail (e : ParseError) : String :=
  e.problem.message (match e.found with
    | some token => token.describe
    | none => "end of file")

end ParseError

end FileChores
