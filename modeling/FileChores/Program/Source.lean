import FileChores.Program.Parser

/-!
# From text to program

The text is cut into lexemes as a whole before the first of them is read, so an error of the
lexemes comes before any error of the grammar.
-/

namespace FileChores

inductive SourceError
  | lexical (e : LexError)
  | grammatical (e : ParseError)
  deriving BEq, Repr

namespace SourceError

def pos : SourceError → Position
  | lexical e => e.pos
  | grammatical e => e.pos

def detail : SourceError → String
  | lexical e => e.problem.message
  | grammatical e => e.detail

def message (e : SourceError) : String :=
  s!"Parse error at {e.pos.describe}: {e.detail}"

end SourceError

namespace Program

def ofSource (source : String) : Except SourceError Program :=
  match Lexemes.ofSource source with
  | .error e => .error (.lexical e)
  | .ok lexemes => (ofLexemes lexemes).1.mapError .grammatical

end Program

end FileChores
