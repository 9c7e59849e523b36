import FileChores.Program.Parser
import FileChores.Proofs.Grammar.Derivation

/-!
# The steps of the parser

What each step comes to, without the proof that less is left, by the lexeme in front. A step that
calls others binds what they come to.
-/

namespace FileChores.Grammar

/-- What a step gives back, without the proof that less is left. -/
def outcome {α : Type} {input : List Lexeme} (result : Except Stuck (Parsed α input)) :
    Except Stuck (α × List Lexeme) :=
  result.map fun parsed => (parsed.value, parsed.rest)

def outcomeOrNone {α : Type} {input : List Lexeme}
    (result : Except Stuck (α × { rest : List Lexeme // rest.length ≤ input.length })) :
    Except Stuck (α × List Lexeme) :=
  result.map fun parsed => (parsed.1, parsed.2.1)

theorem exists_of_outcome {α : Type} {input : List Lexeme}
    {result : Except Stuck (Parsed α input)} {value : α} {rest : List Lexeme}
    (h : outcome result = .ok (value, rest)) :
    ∃ parsed : Parsed α input, parsed.value = value ∧ parsed.rest = rest := by
  cases result with
  | error stuck => cases h
  | ok parsed =>
      cases h
      exact ⟨parsed, rfl, rfl⟩

/-! ## Expressions -/

theorem outcome_parsePrimary_number (value : Float) (pos : Position) (rest : List Lexeme) :
    outcome (Expr.parsePrimary (⟨.number value, pos⟩ :: rest)) =
      .ok (.number value pos, rest) := by
  rw [Expr.parsePrimary]
  rfl

theorem outcome_parsePrimary_text (content : String) (pos : Position) (rest : List Lexeme) :
    outcome (Expr.parsePrimary (⟨.text content, pos⟩ :: rest)) =
      .ok (.text content pos, rest) := by
  rw [Expr.parsePrimary]
  rfl

theorem outcome_parsePrimary_query {name : String} {command : Command}
    (hname : (Command.ofName? name).filter Command.isQuery = some command) (pos : Position)
    (rest : List Lexeme) :
    outcome (Expr.parsePrimary (⟨.word name, pos⟩ :: rest)) =
      (outcome (Expr.parseCall command rest)).map
        fun parsed => (.query command parsed.1 pos, parsed.2) := by
  rw [Expr.parsePrimary, hname]
  dsimp only
  cases Expr.parseCall command rest <;> rfl

theorem outcome_parsePrimary_word {name : String}
    (hname : (Command.ofName? name).filter Command.isQuery = none) (pos : Position)
    (rest : List Lexeme) :
    outcome (Expr.parsePrimary (⟨.word name, pos⟩ :: rest)) = .ok (.word name pos, rest) := by
  rw [Expr.parsePrimary, hname]
  rfl

theorem outcome_parsePrimary_other {input : List Lexeme}
    (hnumber : ∀ value pos rest, input ≠ ⟨.number value, pos⟩ :: rest)
    (htext : ∀ content pos rest, input ≠ ⟨.text content, pos⟩ :: rest)
    (hword : ∀ name pos rest, input ≠ ⟨.word name, pos⟩ :: rest) :
    outcome (Expr.parsePrimary input) = .error ⟨.expression, input⟩ := by
  rw [Expr.parsePrimary]
  · rfl
  · exact hnumber
  · exact htext
  · exact hword

theorem outcome_parseCall_empty (command : Command) (opening closing : Position)
    (rest : List Lexeme) :
    outcome (Expr.parseCall command (⟨.openParen, opening⟩ :: ⟨.closeParen, closing⟩ :: rest)) =
      .ok ([], rest) := by
  rw [Expr.parseCall]
  rfl

theorem outcome_parseCall_args {rest : List Lexeme}
    (hargs : ∀ pos after, rest ≠ ⟨.closeParen, pos⟩ :: after) (command : Command)
    (opening : Position) :
    outcome (Expr.parseCall command (⟨.openParen, opening⟩ :: rest)) =
      outcome (Expr.parse rest) >>= fun first =>
        (outcome (Expr.parseArguments command first.2)).map fun more =>
          (first.1 :: more.1, more.2) := by
  rw [Expr.parseCall]
  · cases Expr.parse rest with
    | error stuck => rfl
    | ok first =>
        change outcome (Expr.parseArguments command first.rest >>= _) = Except.map _ _
        cases Expr.parseArguments command first.rest <;> rfl
  · exact hargs

theorem outcome_parseCall_other {input : List Lexeme}
    (hopen : ∀ pos rest, input ≠ ⟨.openParen, pos⟩ :: rest) (command : Command) :
    outcome (Expr.parseCall command input) = .error ⟨.openParen command, input⟩ := by
  rw [Expr.parseCall]
  · rfl
  · exact fun pos pos' rest => hopen pos _
  · exact hopen

theorem outcome_parseArguments_close (command : Command) (closing : Position)
    (rest : List Lexeme) :
    outcome (Expr.parseArguments command (⟨.closeParen, closing⟩ :: rest)) = .ok ([], rest) := by
  rw [Expr.parseArguments]
  rfl

theorem outcome_parseArguments_comma (command : Command) (pos : Position) (rest : List Lexeme) :
    outcome (Expr.parseArguments command (⟨.comma, pos⟩ :: rest)) =
      outcome (Expr.parse rest) >>= fun next =>
        (outcome (Expr.parseArguments command next.2)).map fun more =>
          (next.1 :: more.1, more.2) := by
  rw [Expr.parseArguments]
  cases Expr.parse rest with
  | error stuck => rfl
  | ok next =>
      change outcome (Expr.parseArguments command next.rest >>= _) = Except.map _ _
      cases Expr.parseArguments command next.rest <;> rfl

theorem outcome_parseArguments_other {input : List Lexeme}
    (hclose : ∀ pos rest, input ≠ ⟨.closeParen, pos⟩ :: rest)
    (hcomma : ∀ pos rest, input ≠ ⟨.comma, pos⟩ :: rest) (command : Command) :
    outcome (Expr.parseArguments command input) = .error ⟨.closeParen command, input⟩ := by
  rw [Expr.parseArguments]
  · rfl
  · exact hclose
  · exact hcomma

theorem outcome_parse (input : List Lexeme) :
    outcome (Expr.parse input) =
      outcome (Expr.parsePrimary input) >>= fun first =>
        outcomeOrNone (Expr.parseChain first.1 first.2) := by
  unfold Expr.parse
  cases Expr.parsePrimary input with
  | error stuck => rfl
  | ok first =>
      change outcome (Expr.parseChain first.value first.rest >>= _) = outcomeOrNone _
      cases Expr.parseChain first.value first.rest <;> rfl

theorem outcomeOrNone_parseChain_link (left : FileChores.Expr) (op : Operator) (pos : Position)
    (rest : List Lexeme) :
    outcomeOrNone (Expr.parseChain left (⟨op.token, pos⟩ :: rest)) =
      outcome (Expr.parsePrimary rest) >>= fun right =>
        outcomeOrNone (Expr.parseChain (.binary op left right.1 pos) right.2) := by
  cases op <;> rw [Operator.token, Expr.parseChain]
  all_goals
    cases Expr.parsePrimary rest with
    | error stuck => rfl
    | ok right =>
        change outcomeOrNone (Expr.parseChain _ right.rest >>= _) =
          outcomeOrNone (Expr.parseChain _ right.rest)
        cases Expr.parseChain _ right.rest <;> rfl

theorem outcomeOrNone_parseChain_done {input : List Lexeme}
    (hplus : ∀ pos rest, input ≠ ⟨.plus, pos⟩ :: rest)
    (hminus : ∀ pos rest, input ≠ ⟨.minus, pos⟩ :: rest) (left : FileChores.Expr) :
    outcomeOrNone (Expr.parseChain left input) = .ok (left, input) := by
  rw [Expr.parseChain]
  · rfl
  · exact hplus
  · exact hminus

/-! ## Conditions -/

theorem outcome_parseComparison (op : Comparison) (pos : Position) (rest : List Lexeme) :
    outcome (Condition.parseComparison (⟨op.token, pos⟩ :: rest)) = .ok (op, rest) := by
  cases op <;> rfl

theorem outcome_parseComparison_other {input : List Lexeme}
    (hop : ∀ op : Comparison, ∀ pos rest, input ≠ ⟨op.token, pos⟩ :: rest) :
    outcome (Condition.parseComparison input) = .error ⟨.comparison, input⟩ := by
  rw [Condition.parseComparison]
  · rfl
  · exact hop .equal
  · exact hop .notEqual
  · exact hop .greater
  · exact hop .less

theorem outcome_parseCondition (input : List Lexeme) :
    outcome (Condition.parse input) =
      outcome (Expr.parse input) >>= fun left =>
        outcome (Condition.parseComparison left.2) >>= fun op =>
          (outcome (Expr.parse op.2)).map fun right =>
            (⟨left.1, op.1, right.1, left.1.pos⟩, right.2) := by
  unfold Condition.parse
  cases Expr.parse input with
  | error stuck => rfl
  | ok left =>
      change outcome (Condition.parseComparison left.rest >>= _) =
        outcome (Condition.parseComparison left.rest) >>= _
      cases Condition.parseComparison left.rest with
      | error stuck => rfl
      | ok op =>
          change outcome (Expr.parse op.rest >>= _) = Except.map _ _
          cases Expr.parse op.rest <;> rfl

/-! ## Statements -/

theorem outcome_parseValue_assign (missing : ParseProblem) (pos : Position)
    (rest : List Lexeme) :
    outcome (Statement.parseValue missing (⟨.assign, pos⟩ :: rest)) =
      outcome (Expr.parse rest) := by
  rw [Statement.parseValue]
  cases Expr.parse rest <;> rfl

theorem outcome_parseValue_other {input : List Lexeme}
    (hsign : ∀ pos rest, input ≠ ⟨.assign, pos⟩ :: rest) (missing : ParseProblem) :
    outcome (Statement.parseValue missing input) = .error ⟨missing, input⟩ := by
  rw [Statement.parseValue]
  · rfl
  · exact hsign

theorem outcome_parseStatement_declare (pos : Position) (name : String) (namePos : Position)
    (rest : List Lexeme) :
    outcome (Statement.parse (⟨.varKeyword, pos⟩ :: ⟨.word name, namePos⟩ :: rest)) =
      (outcome (Statement.parseValue .declareSign rest)).map fun parsed =>
        (.declare name parsed.1 pos, parsed.2) := by
  rw [Statement.parse]
  cases Statement.parseValue .declareSign rest <;> rfl

theorem outcome_parseStatement_noName {rest : List Lexeme}
    (hname : ∀ name namePos after, rest ≠ ⟨.word name, namePos⟩ :: after) (pos : Position) :
    outcome (Statement.parse (⟨.varKeyword, pos⟩ :: rest)) = .error ⟨.declaredName, rest⟩ := by
  rw [Statement.parse]
  · rfl
  · exact hname

theorem outcome_parseStatement_assign {name : String} {rest : List Lexeme}
    (hopen : ∀ paren after, rest ≠ ⟨.openParen, paren⟩ :: after)
    (hname : Command.ofName? name = none) (pos : Position) :
    outcome (Statement.parse (⟨.word name, pos⟩ :: rest)) =
      (outcome (Statement.parseValue .assignSign rest)).map fun parsed =>
        (.assign name parsed.1 pos, parsed.2) := by
  rw [Statement.parse]
  simp only [hname]
  cases Statement.parseValue .assignSign rest <;> rfl

theorem outcome_parseStatement_call {name : String} {command : Command}
    (hname : Command.ofName? name = some command) (pos : Position) (rest : List Lexeme) :
    outcome (Statement.parse (⟨.word name, pos⟩ :: rest)) =
      (outcome (Expr.parseCall command rest)).map fun parsed =>
        (.call command parsed.1 pos, parsed.2) := by
  rw [Statement.parse]
  simp only [hname]
  cases Expr.parseCall command rest <;> rfl

theorem outcome_parseStatement_unknown {name : String} (hname : Command.ofName? name = none)
    (pos paren : Position) (rest : List Lexeme) :
    outcome (Statement.parse (⟨.word name, pos⟩ :: ⟨.openParen, paren⟩ :: rest)) =
      .error ⟨.unknownCommand name, ⟨.word name, pos⟩ :: ⟨.openParen, paren⟩ :: rest⟩ := by
  rw [Statement.parse]
  simp only [hname]
  rfl

theorem outcome_parseStatement_other {input : List Lexeme}
    (hvar : ∀ pos rest, input ≠ ⟨.varKeyword, pos⟩ :: rest)
    (hif : ∀ pos rest, input ≠ ⟨.ifKeyword, pos⟩ :: rest)
    (hfor : ∀ pos rest, input ≠ ⟨.forKeyword, pos⟩ :: rest)
    (hword : ∀ name pos rest, input ≠ ⟨.word name, pos⟩ :: rest) :
    outcome (Statement.parse input) = .error ⟨.statement, input⟩ := by
  rw [Statement.parse]
  · rfl
  · exact fun pos name namePos rest => hvar pos _
  · exact hvar
  · exact hif
  · exact hfor
  · exact hword

def guarded (role : BlockRole) (input : List Lexeme) :
    Except Stuck ((FileChores.Condition × FileChores.Block) × List Lexeme) :=
  outcome (Condition.parse input) >>= fun condition =>
    (outcome (Statement.parseBlock role condition.2)).map fun block =>
      ((condition.1, block.1), block.2)

theorem exists_of_guarded {role : BlockRole} {input : List Lexeme}
    {value : FileChores.Condition × FileChores.Block} {rest : List Lexeme}
    (h : guarded role input = .ok (value, rest)) :
    ∃ (condition : Parsed FileChores.Condition input)
      (block : Parsed FileChores.Block condition.rest),
      value = (condition.value, block.value) ∧ rest = block.rest := by
  rw [guarded] at h
  cases hcondition : Condition.parse input with
  | error stuck =>
      rw [hcondition] at h
      cases h
  | ok condition =>
      rw [hcondition] at h
      change Except.map _ (outcome (Statement.parseBlock role condition.rest)) = _ at h
      cases hblock : Statement.parseBlock role condition.rest with
      | error stuck =>
          rw [hblock] at h
          cases h
      | ok block =>
          rw [hblock] at h
          cases h
          exact ⟨condition, block, rfl, rfl⟩

theorem outcome_parseStatement_loop (pos : Position) (rest : List Lexeme) :
    outcome (Statement.parse (⟨.forKeyword, pos⟩ :: rest)) =
      (guarded .loopBody rest).map fun parsed =>
        (.loop parsed.1.1 parsed.1.2 pos, parsed.2) := by
  rw [Statement.parse, guarded]
  cases Condition.parse rest with
  | error stuck => rfl
  | ok condition =>
      change outcome (Statement.parseBlock .loopBody condition.rest >>= _) =
        Except.map _ (Except.map _ _)
      cases Statement.parseBlock .loopBody condition.rest <;> rfl

theorem outcome_parseStatement_branch (pos : Position) (rest : List Lexeme) :
    outcome (Statement.parse (⟨.ifKeyword, pos⟩ :: rest)) =
      (guarded .thenBranch rest >>= fun parsed =>
        (outcomeOrNone (Statement.parseElse parsed.2)).map fun elseBlock =>
          ((parsed.1, elseBlock.1), elseBlock.2)).map fun parsed =>
            (.branch parsed.1.1.1 parsed.1.1.2 parsed.1.2 pos, parsed.2) := by
  rw [Statement.parse, guarded]
  cases Condition.parse rest with
  | error stuck => rfl
  | ok condition =>
      change outcome (Statement.parseBlock .thenBranch condition.rest >>= _) =
        Except.map _
          (Except.map _ (outcome (Statement.parseBlock .thenBranch condition.rest)) >>= _)
      cases Statement.parseBlock .thenBranch condition.rest with
      | error stuck => rfl
      | ok thenBlock =>
          change outcome (Statement.parseElse thenBlock.rest >>= _) =
            Except.map _ (Except.map _ (outcomeOrNone (Statement.parseElse thenBlock.rest)))
          cases Statement.parseElse thenBlock.rest <;> rfl

/-! ## Blocks -/

theorem outcomeOrNone_parseElse_block (pos : Position) (rest : List Lexeme) :
    outcomeOrNone (Statement.parseElse (⟨.elseKeyword, pos⟩ :: rest)) =
      (outcome (Statement.parseBlock .elseBranch rest)).map fun parsed =>
        (some parsed.1, parsed.2) := by
  rw [Statement.parseElse]
  cases Statement.parseBlock .elseBranch rest <;> rfl

theorem outcomeOrNone_parseElse_none {input : List Lexeme}
    (helse : ∀ pos rest, input ≠ ⟨.elseKeyword, pos⟩ :: rest) :
    outcomeOrNone (Statement.parseElse input) = .ok (none, input) := by
  rw [Statement.parseElse]
  · rfl
  · exact helse

theorem outcome_parseBlock_brace (role : BlockRole) (pos : Position) (rest : List Lexeme) :
    outcome (Statement.parseBlock role (⟨.openBrace, pos⟩ :: rest)) =
      outcome (Statement.parseBody rest) := by
  unfold Statement.parseBlock
  cases Statement.parseBody rest <;> rfl

theorem outcome_parseBlock_other {input : List Lexeme}
    (hbrace : ∀ pos rest, input ≠ ⟨.openBrace, pos⟩ :: rest) (role : BlockRole) :
    outcome (Statement.parseBlock role input) = .error ⟨.openBrace role, input⟩ := by
  rw [Statement.parseBlock]
  · rfl
  · exact hbrace

theorem outcome_parseBody_nil :
    outcome (Statement.parseBody []) = .error ⟨.closeBrace, []⟩ := by
  rw [Statement.parseBody]
  rfl

theorem outcome_parseBody_close (closing : Position) (rest : List Lexeme) :
    outcome (Statement.parseBody (⟨.closeBrace, closing⟩ :: rest)) = .ok ([], rest) := by
  rw [Statement.parseBody]
  rfl

theorem outcome_parseBody_more {first : Lexeme}
    (hclose : ∀ pos, first ≠ ⟨.closeBrace, pos⟩) (rest : List Lexeme) :
    outcome (Statement.parseBody (first :: rest)) =
      outcome (Statement.parse (first :: rest)) >>= fun statement =>
        (outcome (Statement.parseBody statement.2)).map fun more =>
          (statement.1 :: more.1, more.2) := by
  rw [Statement.parseBody]
  · cases Statement.parse (first :: rest) with
    | error stuck => rfl
    | ok statement =>
        change outcome (Statement.parseBody statement.rest >>= _) = Except.map _ _
        cases Statement.parseBody statement.rest <;> rfl
  · exact hclose

/-! ## Programs -/

/-- A block is a program when nothing stands behind it. -/
def whole : FileChores.Block × List Lexeme → Except Stuck (Program × List Lexeme)
  | (body, []) => .ok (⟨body⟩, [])
  | (_, rest) => .error ⟨.endOfScript, rest⟩

theorem parse_eq_whole (input : List Lexeme) :
    (Program.parse input).map (fun program => (program, [])) =
      outcome (Statement.parseBlock .script input) >>= whole := by
  rw [Program.parse]
  cases Statement.parseBlock .script input with
  | error stuck => rfl
  | ok body =>
      obtain ⟨value, rest, shorter⟩ := body
      cases rest <;> rfl

end FileChores.Grammar
