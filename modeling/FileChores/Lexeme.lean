import FileChores.Text.Alphabetic
import FileChores.Text.Numeric
import FileChores.Text.Position
import FileChores.Token

/-!
# Lexemes

A script is cut into lexemes from left to right, each as long as it can be; spaces, tabs, carriage
returns and line feeds between them are skipped. `cut_append` says that a cut loses no character,
and `length_rest_lt` that it takes at least one.
-/

namespace FileChores

structure Lexeme where
  token : Token
  pos : Position
  deriving BEq, Repr

inductive LexProblem
  | unterminatedText
  | loneExclamation
  | unexpected (c : Char)
  deriving DecidableEq, Repr

namespace LexProblem

def message : LexProblem → String
  | unterminatedText => "Unterminated string literal"
  | loneExclamation => "Expected '=' after '!'"
  | unexpected c => s!"Unexpected character: '{c}'"

end LexProblem

structure LexError where
  problem : LexProblem
  pos : Position
  deriving DecidableEq, Repr

namespace LexError

def message (e : LexError) : String :=
  s!"Lexer error at {e.pos.describe}: {e.problem.message}"

end LexError

/-- The lexemes of a whole script and the position behind its last character. -/
structure Lexemes where
  list : List Lexeme
  finish : Position
  deriving BEq, Repr

namespace Lexeme

def isSkipped (c : Char) : Bool :=
  c == ' ' || c == '\t' || c == '\r' || c == '\n'

def isWordStart (c : Char) : Bool :=
  Text.isAlphabetic c || c == '_'

def isWordPart (c : Char) : Bool :=
  Text.isAlphabetic c || Text.isNumeric c || c == '_'

/-- What stands before the closing quote, as it is written, and what stands behind that quote. A
backslash keeps the next character from closing the text. -/
def untilQuote : List Char → Option (List Char × List Char)
  | [] => none
  | '"' :: rest => some ([], rest)
  | '\\' :: c :: rest => (untilQuote rest).map fun (inner, after) => ('\\' :: c :: inner, after)
  | c :: rest => (untilQuote rest).map fun (inner, after) => (c :: inner, after)

def unescape : List Char → List Char
  | [] => []
  | '\\' :: c :: rest => c :: unescape rest
  | c :: rest => c :: unescape rest

/-- A token, the characters it was written with, and the characters behind them. -/
structure Cut where
  token : Token
  written : List Char
  rest : List Char

def cut (c : Char) (rest : List Char) : Except LexProblem Cut :=
  if c = '"' then
    match untilQuote rest with
    | some (inner, after) => .ok ⟨.text (.ofList (unescape inner)), c :: inner ++ ['"'], after⟩
    | none => .error .unterminatedText
  else if c.isDigit then
    let digits := c :: rest.takeWhile Char.isDigit
    .ok ⟨.number (Number.ofDigits digits), digits, rest.dropWhile Char.isDigit⟩
  else if isWordStart c then
    let word := c :: rest.takeWhile isWordPart
    .ok ⟨.ofWord (.ofList word), word, rest.dropWhile isWordPart⟩
  else
    match c, rest with
    | '=', '=' :: rest => .ok ⟨.equal, ['=', '='], rest⟩
    | '=', rest => .ok ⟨.assign, ['='], rest⟩
    | '!', '=' :: rest => .ok ⟨.notEqual, ['!', '='], rest⟩
    | '!', _ => .error .loneExclamation
    | '+', rest => .ok ⟨.plus, ['+'], rest⟩
    | '-', rest => .ok ⟨.minus, ['-'], rest⟩
    | '<', rest => .ok ⟨.less, ['<'], rest⟩
    | '>', rest => .ok ⟨.greater, ['>'], rest⟩
    | '(', rest => .ok ⟨.openParen, ['('], rest⟩
    | ')', rest => .ok ⟨.closeParen, [')'], rest⟩
    | '{', rest => .ok ⟨.openBrace, ['{'], rest⟩
    | '}', rest => .ok ⟨.closeBrace, ['}'], rest⟩
    | ',', rest => .ok ⟨.comma, [','], rest⟩
    | c, _ => .error (.unexpected c)

theorem untilQuote_append {cs inner after : List Char} (h : untilQuote cs = some (inner, after)) :
    inner ++ '"' :: after = cs := by
  fun_induction untilQuote cs generalizing inner with
  | case1 => simp at h
  | case2 rest => simp_all
  | case3 c rest ih =>
      obtain ⟨⟨inner', after'⟩, hrest, heq⟩ := Option.map_eq_some_iff.1 h
      cases heq
      simp [ih hrest]
  | case4 c rest _ _ ih =>
      obtain ⟨⟨inner', after'⟩, hrest, heq⟩ := Option.map_eq_some_iff.1 h
      cases heq
      simp [ih hrest]

theorem cut_append {c : Char} {rest : List Char} {piece : Cut} (h : cut c rest = .ok piece) :
    piece.written ++ piece.rest = c :: rest := by
  unfold cut at h
  split at h
  · split at h
    · next hquote =>
        cases h
        simp [untilQuote_append hquote]
    · cases h
  split at h
  · cases h
    simp [List.takeWhile_append_dropWhile]
  split at h
  · cases h
    simp [List.takeWhile_append_dropWhile]
  · split at h <;> cases h <;> rfl

theorem written_ne_nil {c : Char} {rest : List Char} {piece : Cut} (h : cut c rest = .ok piece) :
    piece.written ≠ [] := by
  unfold cut at h
  split at h
  · split at h <;> cases h
    simp
  split at h
  · cases h
    simp
  split at h
  · cases h
    simp
  · split at h <;> cases h <;> simp

theorem length_rest_lt {c : Char} {rest : List Char} {piece : Cut} (h : cut c rest = .ok piece) :
    piece.rest.length < (c :: rest).length := by
  have := congrArg List.length (cut_append h)
  have := List.length_pos_iff.2 (written_ne_nil h)
  simp only [List.length_append] at *
  omega

end Lexeme

namespace Lexemes

def scan (here : Position) : List Char → Except LexError Lexemes
  | [] => .ok ⟨[], here⟩
  | c :: rest =>
      if Lexeme.isSkipped c then scan (here.advance c) rest
      else
        match _ : Lexeme.cut c rest with
        | .error problem => .error ⟨problem, here⟩
        | .ok piece => do
            let later ← scan (here.after piece.written) piece.rest
            return ⟨⟨piece.token, here⟩ :: later.list, later.finish⟩
  termination_by cs => cs.length
  decreasing_by
    · simp
    · exact Lexeme.length_rest_lt ‹_›

def ofSource (source : String) : Except LexError Lexemes :=
  scan .start source.toList

end Lexemes

end FileChores
