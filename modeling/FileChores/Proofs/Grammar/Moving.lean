import FileChores.Proofs.Grammar.Steps
import FileChores.Proofs.Moved

/-!
# Reading lexemes in other places

No step of the parser looks at a position. On lexemes that were moved it comes to the same value,
moved, and leaves the same lexemes, moved; or it fails for the same problem in front of them.
-/

namespace FileChores.Grammar

variable {f : Position → Position}

/-- What a step comes to that is given the same lexemes, moved. -/
def carried (f : Position → Position) {α β : Type} (carry : α → β)
    (result : Except Stuck (α × List Lexeme)) : Except Stuck (β × List Lexeme) :=
  (result.mapError (Stuck.moved f)).map (Prod.map carry (List.map (Lexeme.moved f)))

section

variable {α β γ δ : Type} {carry : α → β} {carry' : γ → δ}

theorem carried_map {k : α × List Lexeme → γ × List Lexeme}
    {k' : β × List Lexeme → δ × List Lexeme}
    (h : ∀ parsed, k' (Prod.map carry (List.map (Lexeme.moved f)) parsed) =
      Prod.map carry' (List.map (Lexeme.moved f)) (k parsed))
    (result : Except Stuck (α × List Lexeme)) :
    (carried f carry result).map k' = carried f carry' (result.map k) := by
  cases result with
  | error stuck => rfl
  | ok parsed => exact congrArg Except.ok (h parsed)

theorem carried_bind {result : Except Stuck (α × List Lexeme)}
    {next : α × List Lexeme → Except Stuck (γ × List Lexeme)}
    {next' : β × List Lexeme → Except Stuck (δ × List Lexeme)}
    (h : ∀ value rest, result = .ok (value, rest) →
      next' (carry value, rest.map (Lexeme.moved f)) = carried f carry' (next (value, rest))) :
    carried f carry result >>= next' = carried f carry' (result >>= next) := by
  cases result with
  | error stuck => rfl
  | ok parsed => exact h parsed.1 parsed.2 rfl

end

theorem ne_cons_moved {token : Token} {l : List Lexeme} (h : ∀ pos rest, l ≠ ⟨token, pos⟩ :: rest)
    (pos : Position) (rest : List Lexeme) : l.map (Lexeme.moved f) ≠ ⟨token, pos⟩ :: rest := by
  cases l with
  | nil => exact nofun
  | cons x l =>
      intro heq
      obtain ⟨rfl, -⟩ := Lexeme.mk.inj (List.cons.inj heq).1
      exact h x.pos l rfl

/-! ## Expressions -/

abbrev MovesPrimary (f : Position → Position) (input : List Lexeme) : Prop :=
  outcome (Expr.parsePrimary (input.map (Lexeme.moved f))) =
    carried f (FileChores.Expr.moved f) (outcome (Expr.parsePrimary input))

abbrev MovesCall (f : Position → Position) (command : Command) (input : List Lexeme) : Prop :=
  outcome (Expr.parseCall command (input.map (Lexeme.moved f))) =
    carried f (FileChores.Expr.movedAll f) (outcome (Expr.parseCall command input))

abbrev MovesArguments (f : Position → Position) (command : Command) (input : List Lexeme) : Prop :=
  outcome (Expr.parseArguments command (input.map (Lexeme.moved f))) =
    carried f (FileChores.Expr.movedAll f) (outcome (Expr.parseArguments command input))

abbrev MovesExpr (f : Position → Position) (input : List Lexeme) : Prop :=
  outcome (Expr.parse (input.map (Lexeme.moved f))) =
    carried f (FileChores.Expr.moved f) (outcome (Expr.parse input))

abbrev MovesChain (f : Position → Position) (left : FileChores.Expr) (input : List Lexeme) : Prop :=
  outcomeOrNone (Expr.parseChain (left.moved f) (input.map (Lexeme.moved f))) =
    carried f (FileChores.Expr.moved f) (outcomeOrNone (Expr.parseChain left input))

theorem movesPrimary_query {name : String} {pos : Position} {rest : List Lexeme}
    {command : Command} (hname : (Command.ofName? name).filter Command.isQuery = some command)
    (hargs : MovesCall f command rest) : MovesPrimary f (⟨.word name, pos⟩ :: rest) := by
  rw [MovesPrimary, outcome_parsePrimary_query hname]
  refine (outcome_parsePrimary_query hname _ _).trans ?_
  rw [hargs]
  refine carried_map (fun _ => ?_) _
  rfl

theorem movesPrimary_other {input : List Lexeme}
    (hnumber : ∀ value pos rest, input ≠ ⟨.number value, pos⟩ :: rest)
    (htext : ∀ content pos rest, input ≠ ⟨.text content, pos⟩ :: rest)
    (hword : ∀ name pos rest, input ≠ ⟨.word name, pos⟩ :: rest) : MovesPrimary f input := by
  rw [MovesPrimary, outcome_parsePrimary_other hnumber htext hword]
  exact outcome_parsePrimary_other (fun value => ne_cons_moved (hnumber value))
    (fun content => ne_cons_moved (htext content)) fun name => ne_cons_moved (hword name)

theorem moves_arguments (command : Command) {input : List Lexeme} (hfirst : MovesExpr f input)
    (hmore : ∀ first : Parsed FileChores.Expr input, MovesArguments f command first.rest) :
    (outcome (Expr.parse (input.map (Lexeme.moved f))) >>= fun first =>
        (outcome (Expr.parseArguments command first.2)).map fun more =>
          (first.1 :: more.1, more.2)) =
      carried f (FileChores.Expr.movedAll f) (outcome (Expr.parse input) >>= fun first =>
        (outcome (Expr.parseArguments command first.2)).map fun more =>
          (first.1 :: more.1, more.2)) := by
  rw [hfirst]
  refine carried_bind fun value rest hvalue => ?_
  obtain ⟨first, rfl, rfl⟩ := exists_of_outcome hvalue
  rw [hmore first]
  refine carried_map (fun _ => ?_) _
  rfl

theorem movesCall_args {command : Command} {opening : Position} {rest : List Lexeme}
    (hargs : ∀ pos after, rest ≠ ⟨.closeParen, pos⟩ :: after) (hfirst : MovesExpr f rest)
    (hmore : ∀ first : Parsed FileChores.Expr rest, MovesArguments f command first.rest) :
    MovesCall f command (⟨.openParen, opening⟩ :: rest) := by
  rw [MovesCall, outcome_parseCall_args hargs, ← moves_arguments command hfirst hmore]
  exact outcome_parseCall_args (ne_cons_moved hargs) command _

theorem movesArguments_comma {command : Command} {pos : Position} {rest : List Lexeme}
    (hnext : MovesExpr f rest)
    (hmore : ∀ next : Parsed FileChores.Expr rest, MovesArguments f command next.rest) :
    MovesArguments f command (⟨.comma, pos⟩ :: rest) := by
  rw [MovesArguments, outcome_parseArguments_comma, ← moves_arguments command hnext hmore]
  exact outcome_parseArguments_comma command _ _

theorem movesExpr_chain {input : List Lexeme} (hfirst : MovesPrimary f input)
    (hchain : ∀ first : Parsed FileChores.Expr input, MovesChain f first.value first.rest) :
    MovesExpr f input := by
  rw [MovesExpr, outcome_parse, outcome_parse, hfirst]
  refine carried_bind fun value rest hvalue => ?_
  obtain ⟨first, rfl, rfl⟩ := exists_of_outcome hvalue
  exact hchain first

theorem movesChain_link {left : FileChores.Expr} (op : Operator) {pos : Position}
    {rest : List Lexeme} (hfirst : MovesPrimary f rest)
    (hchain : ∀ right : Parsed FileChores.Expr rest,
      MovesChain f (.binary op left right.value pos) right.rest) :
    MovesChain f left (⟨op.token, pos⟩ :: rest) := by
  rw [MovesChain, outcomeOrNone_parseChain_link]
  refine (outcomeOrNone_parseChain_link _ op _ _).trans ?_
  rw [hfirst]
  refine carried_bind fun value after hvalue => ?_
  obtain ⟨right, rfl, rfl⟩ := exists_of_outcome hvalue
  exact hchain right

theorem movesChain_done {left : FileChores.Expr} {input : List Lexeme}
    (hplus : ∀ pos rest, input ≠ ⟨.plus, pos⟩ :: rest)
    (hminus : ∀ pos rest, input ≠ ⟨.minus, pos⟩ :: rest) : MovesChain f left input := by
  rw [MovesChain, outcomeOrNone_parseChain_done hplus hminus]
  exact outcomeOrNone_parseChain_done (ne_cons_moved hplus) (ne_cons_moved hminus) _

theorem moves_exprs (f : Position → Position) : (∀ input, MovesPrimary f input) ∧
    (∀ command input, MovesCall f command input) ∧
    (∀ command input, MovesArguments f command input) ∧ (∀ input, MovesExpr f input) ∧
    ∀ left input, MovesChain f left input := by
  refine Expr.parsePrimary.mutual_induct (MovesPrimary f) (MovesCall f) (MovesArguments f)
    (MovesExpr f) (MovesChain f) ?number ?text ?query ?word ?primary ?empty ?args ?call ?close
    ?comma ?arguments ?expr ?plus ?minus ?done
  case number =>
    intro value pos rest
    rw [MovesPrimary, outcome_parsePrimary_number]
    exact outcome_parsePrimary_number _ _ _
  case text =>
    intro content pos rest
    rw [MovesPrimary, outcome_parsePrimary_text]
    exact outcome_parsePrimary_text _ _ _
  case query => exact fun _ _ _ _ hname hargs => movesPrimary_query hname hargs
  case word =>
    intro name pos rest hname
    rw [MovesPrimary, outcome_parsePrimary_word hname]
    exact outcome_parsePrimary_word hname _ _
  case primary => exact fun _ hnumber htext hword => movesPrimary_other hnumber htext hword
  case empty =>
    intro command opening closing rest
    rw [MovesCall, outcome_parseCall_empty]
    exact outcome_parseCall_empty _ _ _ _
  case args => exact fun _ _ _ hargs hfirst hmore => movesCall_args hargs hfirst hmore
  case call =>
    intro command input _ hopen
    rw [MovesCall, outcome_parseCall_other hopen]
    exact outcome_parseCall_other (ne_cons_moved hopen) _
  case close =>
    intro command closing rest
    rw [MovesArguments, outcome_parseArguments_close]
    exact outcome_parseArguments_close _ _ _
  case comma => exact fun _ _ _ hnext hmore => movesArguments_comma hnext hmore
  case arguments =>
    intro command input hclose hcomma
    rw [MovesArguments, outcome_parseArguments_other hclose hcomma]
    exact outcome_parseArguments_other (ne_cons_moved hclose) (ne_cons_moved hcomma) _
  case expr => exact fun _ hfirst hchain => movesExpr_chain hfirst hchain
  case plus => exact fun _ _ _ hfirst hchain => movesChain_link .add hfirst hchain
  case minus => exact fun _ _ _ hfirst hchain => movesChain_link .sub hfirst hchain
  case done => exact fun _ _ hplus hminus => movesChain_done hplus hminus

theorem movesCall (f : Position → Position) (command : Command) (input : List Lexeme) :
    MovesCall f command input :=
  (moves_exprs f).2.1 command input

theorem movesExpr (f : Position → Position) (input : List Lexeme) : MovesExpr f input :=
  (moves_exprs f).2.2.2.1 input

/-! ## Conditions -/

theorem moves_comparison (f : Position → Position) (input : List Lexeme) :
    outcome (Condition.parseComparison (input.map (Lexeme.moved f))) =
      carried f id (outcome (Condition.parseComparison input)) := by
  by_cases hop : ∃ (op : Comparison) (pos : Position) (rest : List Lexeme),
      input = ⟨op.token, pos⟩ :: rest
  · obtain ⟨op, pos, rest, rfl⟩ := hop
    rw [outcome_parseComparison]
    exact outcome_parseComparison op _ _
  · have hop' : ∀ op : Comparison, ∀ pos rest, input ≠ ⟨op.token, pos⟩ :: rest :=
      fun op pos rest h => hop ⟨op, pos, rest, h⟩
    rw [outcome_parseComparison_other hop']
    exact outcome_parseComparison_other fun op => ne_cons_moved (hop' op)

theorem movesCondition (f : Position → Position) (input : List Lexeme) :
    outcome (Condition.parse (input.map (Lexeme.moved f))) =
      carried f (FileChores.Condition.moved f) (outcome (Condition.parse input)) := by
  rw [outcome_parseCondition, outcome_parseCondition, movesExpr f input]
  refine carried_bind fun left rest _ => ?_
  dsimp only
  rw [moves_comparison f rest]
  refine carried_bind fun op rest' _ => ?_
  dsimp only
  rw [movesExpr f rest']
  refine carried_map (fun parsed => ?_) _
  rw [Expr.pos_moved]
  rfl

/-! ## Statements -/

theorem movesValue (f : Position → Position) (missing : ParseProblem) (input : List Lexeme) :
    outcome (Statement.parseValue missing (input.map (Lexeme.moved f))) =
      carried f (FileChores.Expr.moved f) (outcome (Statement.parseValue missing input)) := by
  by_cases hsign : ∃ pos rest, input = ⟨.assign, pos⟩ :: rest
  · obtain ⟨pos, rest, rfl⟩ := hsign
    rw [outcome_parseValue_assign, ← movesExpr f rest]
    exact outcome_parseValue_assign _ _ _
  · have hsign' : ∀ pos rest, input ≠ ⟨.assign, pos⟩ :: rest :=
      fun pos rest h => hsign ⟨pos, rest, h⟩
    rw [outcome_parseValue_other hsign']
    exact outcome_parseValue_other (ne_cons_moved hsign') _

abbrev MovesStatement (f : Position → Position) (input : List Lexeme) : Prop :=
  outcome (Statement.parse (input.map (Lexeme.moved f))) =
    carried f (FileChores.Statement.moved f) (outcome (Statement.parse input))

abbrev MovesElse (f : Position → Position) (input : List Lexeme) : Prop :=
  outcomeOrNone (Statement.parseElse (input.map (Lexeme.moved f))) =
    carried f (FileChores.Statement.movedElse f) (outcomeOrNone (Statement.parseElse input))

abbrev MovesBlock (f : Position → Position) (role : BlockRole) (input : List Lexeme) : Prop :=
  outcome (Statement.parseBlock role (input.map (Lexeme.moved f))) =
    carried f (FileChores.Statement.movedBlock f) (outcome (Statement.parseBlock role input))

abbrev MovesBody (f : Position → Position) (input : List Lexeme) : Prop :=
  outcome (Statement.parseBody (input.map (Lexeme.moved f))) =
    carried f (FileChores.Statement.movedBlock f) (outcome (Statement.parseBody input))

theorem movesStatement_declare (pos : Position) (name : String) (namePos : Position)
    (rest : List Lexeme) :
    MovesStatement f (⟨.varKeyword, pos⟩ :: ⟨.word name, namePos⟩ :: rest) := by
  rw [MovesStatement, outcome_parseStatement_declare]
  refine (outcome_parseStatement_declare _ _ _ _).trans ?_
  rw [movesValue f .declareSign rest]
  refine carried_map (fun _ => ?_) _
  rfl

theorem movesStatement_noName {pos : Position} {rest : List Lexeme}
    (hname : ∀ name namePos after, rest ≠ ⟨.word name, namePos⟩ :: after) :
    MovesStatement f (⟨.varKeyword, pos⟩ :: rest) := by
  rw [MovesStatement, outcome_parseStatement_noName hname]
  exact outcome_parseStatement_noName (fun name => ne_cons_moved (hname name)) _

theorem movesStatement_assign {name : String} {pos : Position} {rest : List Lexeme}
    (hopen : ∀ paren after, rest ≠ ⟨.openParen, paren⟩ :: after)
    (hname : Command.ofName? name = none) : MovesStatement f (⟨.word name, pos⟩ :: rest) := by
  rw [MovesStatement, outcome_parseStatement_assign hopen hname]
  refine (outcome_parseStatement_assign (ne_cons_moved hopen) hname _).trans ?_
  rw [movesValue f .assignSign rest]
  refine carried_map (fun _ => ?_) _
  rfl

theorem movesStatement_call {name : String} {pos : Position} {command : Command}
    {rest : List Lexeme} (hname : Command.ofName? name = some command) :
    MovesStatement f (⟨.word name, pos⟩ :: rest) := by
  rw [MovesStatement, outcome_parseStatement_call hname]
  refine (outcome_parseStatement_call hname _ _).trans ?_
  rw [movesCall f command rest]
  refine carried_map (fun _ => ?_) _
  rfl

theorem movesStatement_other {input : List Lexeme}
    (hvar : ∀ pos rest, input ≠ ⟨.varKeyword, pos⟩ :: rest)
    (hif : ∀ pos rest, input ≠ ⟨.ifKeyword, pos⟩ :: rest)
    (hfor : ∀ pos rest, input ≠ ⟨.forKeyword, pos⟩ :: rest)
    (hword : ∀ name pos rest, input ≠ ⟨.word name, pos⟩ :: rest) : MovesStatement f input := by
  rw [MovesStatement, outcome_parseStatement_other hvar hif hfor hword]
  exact outcome_parseStatement_other (ne_cons_moved hvar) (ne_cons_moved hif)
    (ne_cons_moved hfor) fun name => ne_cons_moved (hword name)

theorem moves_guarded {role : BlockRole} {input : List Lexeme}
    (hblock : ∀ condition : Parsed FileChores.Condition input,
      MovesBlock f role condition.rest) :
    guarded role (input.map (Lexeme.moved f)) =
      carried f (Prod.map (FileChores.Condition.moved f) (FileChores.Statement.movedBlock f))
        (guarded role input) := by
  rw [guarded, guarded, movesCondition f input]
  refine carried_bind fun value rest hvalue => ?_
  obtain ⟨condition, rfl, rfl⟩ := exists_of_outcome hvalue
  dsimp only
  rw [hblock condition]
  refine carried_map (fun _ => ?_) _
  rfl

theorem movesStatement_loop {pos : Position} {rest : List Lexeme}
    (hbody : ∀ condition : Parsed FileChores.Condition rest,
      MovesBlock f .loopBody condition.rest) : MovesStatement f (⟨.forKeyword, pos⟩ :: rest) := by
  rw [MovesStatement, outcome_parseStatement_loop]
  refine (outcome_parseStatement_loop _ _).trans ?_
  rw [moves_guarded hbody]
  refine carried_map (fun _ => ?_) _
  rfl

theorem movesStatement_branch {pos : Position} {rest : List Lexeme}
    (hthen : ∀ condition : Parsed FileChores.Condition rest,
      MovesBlock f .thenBranch condition.rest)
    (helse : ∀ (condition : Parsed FileChores.Condition rest)
      (thenBlock : Parsed FileChores.Block condition.rest), MovesElse f thenBlock.rest) :
    MovesStatement f (⟨.ifKeyword, pos⟩ :: rest) := by
  rw [MovesStatement, outcome_parseStatement_branch]
  refine (outcome_parseStatement_branch _ _).trans ?_
  have hbind : (guarded .thenBranch (rest.map (Lexeme.moved f)) >>= fun parsed =>
        (outcomeOrNone (Statement.parseElse parsed.2)).map fun elseBlock =>
          ((parsed.1, elseBlock.1), elseBlock.2)) =
      carried f (Prod.map
        (Prod.map (FileChores.Condition.moved f) (FileChores.Statement.movedBlock f))
        (FileChores.Statement.movedElse f))
        (guarded .thenBranch rest >>= fun parsed =>
          (outcomeOrNone (Statement.parseElse parsed.2)).map fun elseBlock =>
            ((parsed.1, elseBlock.1), elseBlock.2)) := by
    rw [moves_guarded hthen]
    refine carried_bind fun value after hvalue => ?_
    obtain ⟨condition, thenBlock, rfl, rfl⟩ := exists_of_guarded hvalue
    dsimp only
    rw [helse condition thenBlock]
    refine carried_map (fun _ => ?_) _
    rfl
  rw [hbind]
  refine carried_map (fun _ => ?_) _
  rfl

theorem movesBody_more {first : Lexeme} {rest : List Lexeme}
    (hclose : ∀ pos, first ≠ ⟨.closeBrace, pos⟩) (hfirst : MovesStatement f (first :: rest))
    (hmore : ∀ statement : Parsed FileChores.Statement (first :: rest),
      MovesBody f statement.rest) : MovesBody f (first :: rest) := by
  have hclose' : ∀ pos, first.moved f ≠ ⟨.closeBrace, pos⟩ := by
    intro pos heq
    exact hclose first.pos (by rw [← (Lexeme.mk.inj heq).1])
  rw [MovesBody, outcome_parseBody_more hclose]
  refine (outcome_parseBody_more hclose' _).trans ?_
  rw [← List.map_cons, hfirst]
  refine carried_bind fun value after hvalue => ?_
  obtain ⟨statement, rfl, rfl⟩ := exists_of_outcome hvalue
  dsimp only
  rw [hmore statement]
  refine carried_map (fun _ => ?_) _
  rfl

theorem moves_statements (f : Position → Position) : (∀ input, MovesStatement f input) ∧
    (∀ input, MovesElse f input) ∧ (∀ role input, MovesBlock f role input) ∧
    ∀ input, MovesBody f input := by
  refine Statement.parse.mutual_induct (MovesStatement f) (MovesElse f) (MovesBlock f)
    (MovesBody f) movesStatement_declare ?noName ?branch ?loop ?call ?unknown ?assign ?statement
    ?block ?none ?brace ?noBrace ?nil ?close ?more
  case noName => exact fun _ _ hname => movesStatement_noName hname
  case branch => exact fun _ _ hthen helse => movesStatement_branch hthen helse
  case loop => exact fun _ _ hbody => movesStatement_loop hbody
  case call => exact fun _ _ _ _ hname => movesStatement_call hname
  case unknown =>
    intro name pos paren rest hname
    rw [MovesStatement, outcome_parseStatement_unknown hname]
    exact outcome_parseStatement_unknown hname _ _ _
  case assign => exact fun _ _ _ hopen hname => movesStatement_assign hopen hname
  case statement =>
    exact fun _ _ hvar hif hfor hword => movesStatement_other hvar hif hfor hword
  case block =>
    intro pos rest hblock
    rw [MovesElse, outcomeOrNone_parseElse_block]
    refine (outcomeOrNone_parseElse_block _ _).trans ?_
    rw [hblock]
    refine carried_map (fun _ => ?_) _
    rfl
  case none =>
    intro input helse
    rw [MovesElse, outcomeOrNone_parseElse_none helse]
    exact outcomeOrNone_parseElse_none (ne_cons_moved helse)
  case brace =>
    intro role pos rest hbody
    rw [MovesBlock, outcome_parseBlock_brace, ← hbody]
    exact outcome_parseBlock_brace _ _ _
  case noBrace =>
    intro role input hbrace
    rw [MovesBlock, outcome_parseBlock_other hbrace]
    exact outcome_parseBlock_other (ne_cons_moved hbrace) _
  case nil =>
    rw [MovesBody, outcome_parseBody_nil]
    exact outcome_parseBody_nil
  case close =>
    intro closing rest
    rw [MovesBody, outcome_parseBody_close]
    exact outcome_parseBody_close _ _
  case more => exact fun _ _ hclose hfirst hmore => movesBody_more hclose hfirst hmore

theorem movesBlock (f : Position → Position) (role : BlockRole) (input : List Lexeme) :
    MovesBlock f role input :=
  (moves_statements f).2.2.1 role input

end FileChores.Grammar

namespace FileChores.Program

open Grammar

/-- A program is read from the same lexemes wherever they stand, and so is a failure. -/
theorem parse_moved (f : Position → Position) (input : List Lexeme) :
    parse (input.map (Lexeme.moved f)) =
      ((parse input).mapError (Stuck.moved f)).map (Program.moved f) := by
  have hblock := movesBlock f .script input
  unfold parse
  cases hparse : Statement.parseBlock .script input with
  | error stuck =>
      rw [MovesBlock, hparse] at hblock
      cases hparse' : Statement.parseBlock .script (input.map (Lexeme.moved f)) with
      | error stuck' =>
          rw [hparse'] at hblock
          cases hblock
          rfl
      | ok body' =>
          rw [hparse'] at hblock
          cases hblock
  | ok body =>
      rw [MovesBlock, hparse] at hblock
      cases hparse' : Statement.parseBlock .script (input.map (Lexeme.moved f)) with
      | error stuck' =>
          rw [hparse'] at hblock
          cases hblock
      | ok body' =>
          rw [hparse'] at hblock
          obtain ⟨hvalue, hrest⟩ := Prod.mk.inj (Except.ok.inj hblock)
          simp only [bind, Except.bind, hvalue, hrest]
          cases body.rest <;> rfl

theorem ofLexemes_moved (f : Position → Position) (lexemes : Lexemes) (finish : Position) :
    (ofLexemes ⟨lexemes.list.map (Lexeme.moved f), finish⟩).1 =
      ((ofLexemes lexemes).1.mapError (ParseError.moved f finish)).map (Program.moved f) := by
  rw [ofLexemes, ofLexemes, parse_moved]
  cases parse lexemes.list with
  | ok program => rfl
  | error stuck =>
      obtain ⟨problem, rest⟩ := stuck
      cases rest <;> rfl

/-- At the end of the script nothing is found, and only there. -/
theorem pos_of_ofLexemes {lexemes : Lexemes} {e : ParseError}
    (h : (ofLexemes lexemes).1 = .error e) (hend : e.found = none) : e.pos = lexemes.finish := by
  rw [ofLexemes] at h
  cases hparse : parse lexemes.list with
  | ok program =>
      rw [hparse] at h
      cases h
  | error stuck =>
      rw [hparse] at h
      cases h
      obtain ⟨problem, rest⟩ := stuck
      cases rest with
      | nil => rfl
      | cons first rest => cases hend

end FileChores.Program
