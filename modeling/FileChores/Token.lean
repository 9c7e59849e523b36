import FileChores.Number

/-!
# Tokens

What the text of a script is made of, and how a message names each of them.
-/

namespace FileChores

inductive Token
  | number (value : Float)
  | text (content : String)
  | word (name : String)
  | varKeyword
  | ifKeyword
  | elseKeyword
  | forKeyword
  | plus
  | minus
  | equal
  | notEqual
  | less
  | greater
  | assign
  | openParen
  | closeParen
  | openBrace
  | closeBrace
  | comma
  deriving BEq, Repr

namespace Token

/-- A word is a keyword only as a whole. -/
def ofWord : String → Token
  | "var" => varKeyword
  | "if" => ifKeyword
  | "else" => elseKeyword
  | "for" => forKeyword
  | name => word name

def describe : Token → String
  | number value => s!"number {Number.text value}"
  | text content => s!"string \"{content}\""
  | word name => s!"identifier '{name}'"
  | varKeyword => "'var'"
  | ifKeyword => "'if'"
  | elseKeyword => "'else'"
  | forKeyword => "'for'"
  | plus => "'+'"
  | minus => "'-'"
  | equal => "'=='"
  | notEqual => "'!='"
  | less => "'<'"
  | greater => "'>'"
  | assign => "'='"
  | openParen => "'('"
  | closeParen => "')'"
  | openBrace => "'\x7b'"
  | closeBrace => "'\x7d'"
  | comma => "','"

end Token

end FileChores
