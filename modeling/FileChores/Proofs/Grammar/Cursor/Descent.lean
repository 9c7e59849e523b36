import FileChores.Proofs.Grammar.Cursor.Agreement
import FileChores.Proofs.Grammar.Steps

/-!
# The two parsers agree

What the parser by places comes to from a place on is what the parser of lists comes to for what is
left there, and the place it leaves is the one at which what the other leaves begins.
-/

namespace FileChores.Cursor

open Grammar

variable {lexemes : Lexemes} {place : Nat} {input rest : List Lexeme}

/-! ## Expressions -/

abbrev RereadsPrimary (input : List Lexeme) : Prop :=
  RereadsWithin 0 primaryWithin input (outcome (Expr.parsePrimary input))

abbrev RereadsCall (command : Command) (input : List Lexeme) : Prop :=
  RereadsWithin 0 (argumentsWithin · command) input (outcome (Expr.parseCall command input))

abbrev RereadsArguments (command : Command) (input : List Lexeme) : Prop :=
  RereadsWithin 0 (fun depth => upTo .closeParen (.closeParen command) (moreArgumentsWithin depth))
    input (outcome (Expr.parseArguments command input))

abbrev RereadsExpr (input : List Lexeme) : Prop :=
  RereadsWithin 1 expressionWithin input (outcome (Expr.parse input))

abbrev RereadsChain (left : Expr) (input : List Lexeme) : Prop :=
  RereadsWithin 0 (chainWithin · left) input (outcomeOrNone (Expr.parseChain left input))

theorem rereadsPrimary_number (value : Float) (pos : Position) (rest : List Lexeme) :
    RereadsPrimary (⟨.number value, pos⟩ :: rest) := by
  refine .step fun depth _ => ?_
  rw [outcome_parsePrimary_number, primaryWithin]
  exact .peek (.advance (.pure _ rest))

theorem rereadsPrimary_text (content : String) (pos : Position) (rest : List Lexeme) :
    RereadsPrimary (⟨.text content, pos⟩ :: rest) := by
  refine .step fun depth _ => ?_
  rw [outcome_parsePrimary_text, primaryWithin]
  exact .peek (.advance (.pure _ rest))

theorem rereadsPrimary_query {name : String} {command : Command}
    (hname : (Command.ofName? name).filter Command.isQuery = some command) (pos : Position)
    (hargs : RereadsCall command rest) : RereadsPrimary (⟨.word name, pos⟩ :: rest) := by
  refine .step fun depth hdepth => ?_
  rw [outcome_parsePrimary_query hname, primaryWithin]
  refine .peek (.advance ?_)
  rw [hname]
  exact (hargs.later (Nat.lt_succ_self _) hdepth).map fun args => Expr.query command args pos

theorem rereadsPrimary_word {name : String}
    (hname : (Command.ofName? name).filter Command.isQuery = none) (pos : Position)
    (rest : List Lexeme) : RereadsPrimary (⟨.word name, pos⟩ :: rest) := by
  refine .step fun depth _ => ?_
  rw [outcome_parsePrimary_word hname, primaryWithin]
  refine .peek (.advance ?_)
  rw [hname]
  exact .pure _ rest

theorem rereadsPrimary_other (hnumber : ∀ value pos rest, input ≠ ⟨.number value, pos⟩ :: rest)
    (htext : ∀ content pos rest, input ≠ ⟨.text content, pos⟩ :: rest)
    (hword : ∀ name pos rest, input ≠ ⟨.word name, pos⟩ :: rest) : RereadsPrimary input := by
  refine .step fun depth _ => ?_
  rw [outcome_parsePrimary_other hnumber htext hword, primaryWithin]
  refine .peekAny fun lexemes => ?_
  cases input with
  | nil => exact .fail .expression []
  | cons x rest =>
      obtain ⟨token, pos⟩ := x
      cases token with
      | number value => exact absurd rfl (hnumber value pos rest)
      | text content => exact absurd rfl (htext content pos rest)
      | word name => exact absurd rfl (hword name pos rest)
      | _ => exact .fail .expression _

theorem rereadsCall_empty (command : Command) (opening closing : Position)
    (rest : List Lexeme) :
    RereadsCall command (⟨.openParen, opening⟩ :: ⟨.closeParen, closing⟩ :: rest) := by
  refine .step fun depth hdepth => ?_
  rw [outcome_parseCall_empty, argumentsWithin]
  refine .expect ?_ _
  have hlist : RereadsWithin 0
      (fun depth => upTo .closeParen (.closeParen command) (argumentListWithin depth))
      (⟨.closeParen, closing⟩ :: rest) (.ok ([], rest)) := by
    refine .step fun depth _ => ?_
    rw [argumentListWithin, upTo_test]
    exact .check (.upTo_nil _ _ closing rest)
  exact hlist.later (Nat.lt_succ_self _) hdepth

theorem rereadsCall_args {command : Command}
    (hargs : ∀ pos after, rest ≠ ⟨.closeParen, pos⟩ :: after) (opening : Position)
    (hfirst : RereadsExpr rest)
    (hmore : ∀ first : Parsed Expr rest, RereadsArguments command first.rest) :
    RereadsCall command (⟨.openParen, opening⟩ :: rest) := by
  refine .step fun depth hdepth => ?_
  rw [outcome_parseCall_args hargs, argumentsWithin]
  refine .expect ?_ _
  have hlist : RereadsWithin 2
      (fun depth => upTo .closeParen (.closeParen command) (argumentListWithin depth)) rest
      (outcome (Expr.parse rest) >>= fun first =>
        (outcome (Expr.parseArguments command first.2)).map fun list =>
          (first.1 :: list.1, list.2)) := by
    refine .step fun depth hdepth => ?_
    rw [argumentListWithin, upTo_test, upTo_cons]
    refine .check_other rfl hargs ((hfirst.inside (by decide) hdepth).cons
      (fun rest => outcome (Expr.parseArguments command rest)) fun value after hvalue => ?_)
    obtain ⟨first, -, rfl⟩ := exists_of_outcome hvalue
    exact (hmore first).later first.shorter hdepth
  exact hlist.later (Nat.lt_succ_self _) hdepth

theorem rereadsCall_other {command : Command}
    (hopen : ∀ pos rest, input ≠ ⟨.openParen, pos⟩ :: rest) : RereadsCall command input := by
  refine .step fun depth _ => ?_
  rw [outcome_parseCall_other hopen, argumentsWithin]
  exact .expect_other rfl hopen _ _

theorem rereadsArguments_close (command : Command) (closing : Position) (rest : List Lexeme) :
    RereadsArguments command (⟨.closeParen, closing⟩ :: rest) := by
  refine .step fun depth _ => ?_
  rw [outcome_parseArguments_close, moreArgumentsWithin, upTo_test]
  exact .accept_other rfl (by rintro _ _ ⟨⟩) (.upTo_nil _ _ closing rest)

theorem rereadsArguments_comma {command : Command} (pos : Position) (hnext : RereadsExpr rest)
    (hmore : ∀ next : Parsed Expr rest, RereadsArguments command next.rest) :
    RereadsArguments command (⟨.comma, pos⟩ :: rest) := by
  refine .step fun depth hdepth => ?_
  rw [outcome_parseArguments_comma, moreArgumentsWithin, upTo_test, upTo_cons]
  refine .accept ((hnext.later (Nat.lt_succ_self _) hdepth).cons
    (fun rest => outcome (Expr.parseArguments command rest)) fun value after hvalue => ?_)
  obtain ⟨next, -, rfl⟩ := exists_of_outcome hvalue
  have hshorter : next.rest.length < (⟨Token.comma, pos⟩ :: rest).length :=
    Nat.lt_succ_of_lt next.shorter
  exact (hmore next).later hshorter hdepth

theorem rereadsArguments_other {command : Command}
    (hclose : ∀ pos rest, input ≠ ⟨.closeParen, pos⟩ :: rest)
    (hcomma : ∀ pos rest, input ≠ ⟨.comma, pos⟩ :: rest) : RereadsArguments command input := by
  refine .step fun depth _ => ?_
  rw [outcome_parseArguments_other hclose hcomma, moreArgumentsWithin, upTo_test]
  exact .accept_other rfl hcomma (.upTo_nil_other rfl hclose _)

theorem rereadsExpr_chain (hfirst : RereadsPrimary input)
    (hchain : ∀ first : Parsed Expr input, RereadsChain first.value first.rest) :
    RereadsExpr input := by
  refine .step fun depth hdepth => ?_
  rw [outcome_parse, expressionWithin]
  refine (hfirst.inside (by decide) hdepth).bind fun value rest hvalue => ?_
  obtain ⟨first, rfl, rfl⟩ := exists_of_outcome hvalue
  exact (hchain first).later first.shorter hdepth

/-- The sign has been passed when its position is asked for. -/
theorem agrees_link {left : Expr} {op : Operator} {pos : Position} {depth : Nat}
    {read : Except Stuck (Expr × List Lexeme)} (hat : At lexemes place (⟨op.token, pos⟩ :: rest))
    (h : Rereads
      (primaryWithin depth >>= fun right => chainWithin depth (.binary op left right pos)) rest
      read) :
    Agrees lexemes (place + 1) (linkWithin (depth + 1) op left) read := by
  rw [linkWithin]
  exact .behind (result_previous hat) (Nat.le_refl _) (h lexemes (place + 1) hat.tail)

theorem rereadsChain_link {left : Expr} (op : Operator) (pos : Position)
    (hfirst : RereadsPrimary rest)
    (hchain : ∀ right : Parsed Expr rest,
      RereadsChain (.binary op left right.value pos) right.rest) :
    RereadsChain left (⟨op.token, pos⟩ :: rest) := by
  refine .step fun depth hdepth => ?_
  obtain ⟨depth, rfl⟩ : ∃ inner, depth = inner + 1 :=
    ⟨depth - 1, by rw [List.length_cons] at hdepth; omega⟩
  rw [outcomeOrNone_parseChain_link]
  intro lexemes place hat
  have hread : Rereads
      (primaryWithin depth >>= fun right => chainWithin depth (.binary op left right pos)) rest
      (outcome (Expr.parsePrimary rest) >>= fun right =>
        outcomeOrNone (Expr.parseChain (.binary op left right.1 pos) right.2)) := by
    have hinner : 4 * rest.length + (1 : Fin 4) ≤ depth := by
      rw [List.length_cons] at hdepth
      omega
    refine (hfirst.inside (by decide) hinner).bind fun value after hvalue => ?_
    obtain ⟨right, rfl, rfl⟩ := exists_of_outcome hvalue
    exact (hchain right).later right.shorter hinner
  rw [chainWithin]
  cases op with
  | add => exact .behind (result_accept hat) (Nat.le_succ place) (agrees_link hat hread)
  | sub =>
      refine .behind (result_accept_other rfl (by rintro _ _ ⟨⟩) hat) (Nat.le_refl place) ?_
      exact .behind (result_accept hat) (Nat.le_succ place) (agrees_link hat hread)

theorem rereadsChain_done {left : Expr} (hplus : ∀ pos rest, input ≠ ⟨.plus, pos⟩ :: rest)
    (hminus : ∀ pos rest, input ≠ ⟨.minus, pos⟩ :: rest) : RereadsChain left input := by
  refine .step fun depth _ => ?_
  rw [outcomeOrNone_parseChain_done hplus hminus, chainWithin]
  exact .accept_other rfl hplus (.accept_other rfl hminus (.pure left input))

theorem rereads_exprs : (∀ input, RereadsPrimary input) ∧
    (∀ command input, RereadsCall command input) ∧
    (∀ command input, RereadsArguments command input) ∧ (∀ input, RereadsExpr input) ∧
    ∀ left input, RereadsChain left input := by
  refine Expr.parsePrimary.mutual_induct RereadsPrimary RereadsCall RereadsArguments RereadsExpr
    RereadsChain rereadsPrimary_number rereadsPrimary_text ?query ?word ?primary ?empty ?args ?call
    ?close ?comma ?arguments ?expr ?plus ?minus ?done
  case query => exact fun _ pos _ _ hname hargs => rereadsPrimary_query hname pos hargs
  case word => exact fun _ pos rest hname => rereadsPrimary_word hname pos rest
  case primary => exact fun _ hnumber htext hword => rereadsPrimary_other hnumber htext hword
  case empty => exact rereadsCall_empty
  case args => exact fun _ pos _ hargs hfirst hmore => rereadsCall_args hargs pos hfirst hmore
  case call => exact fun _ _ _ hopen => rereadsCall_other hopen
  case close => exact rereadsArguments_close
  case comma => exact fun _ pos _ hnext hmore => rereadsArguments_comma pos hnext hmore
  case arguments => exact fun _ _ hclose hcomma => rereadsArguments_other hclose hcomma
  case expr => exact fun _ hfirst hchain => rereadsExpr_chain hfirst hchain
  case plus => exact fun _ pos _ hfirst hchain => rereadsChain_link .add pos hfirst hchain
  case minus => exact fun _ pos _ hfirst hchain => rereadsChain_link .sub pos hfirst hchain
  case done => exact fun _ _ hplus hminus => rereadsChain_done hplus hminus

theorem rereads_arguments (command : Command) (input : List Lexeme) :
    Rereads (arguments command) input (outcome (Expr.parseCall command input)) :=
  (rereads_exprs.2.1 command input).rereads

theorem rereads_expression (input : List Lexeme) :
    Rereads expression input (outcome (Expr.parse input)) :=
  (rereads_exprs.2.2.2.1 input).rereads

/-! ## Conditions -/

theorem rereads_comparison (input : List Lexeme) :
    Rereads comparison input (outcome (Condition.parseComparison input)) := by
  by_cases hop : ∃ (op : Comparison) (pos : Position) (rest : List Lexeme),
      input = ⟨op.token, pos⟩ :: rest
  · obtain ⟨op, pos, rest, rfl⟩ := hop
    rw [outcome_parseComparison, comparison]
    cases op <;> exact .peek (.advance (.pure _ rest))
  · have hother (op : Comparison) (pos : Position) (rest : List Lexeme) :
        input ≠ ⟨op.token, pos⟩ :: rest := fun h => hop ⟨op, pos, rest, h⟩
    rw [outcome_parseComparison_other hother, comparison]
    refine .peekAny fun lexemes => ?_
    cases input with
    | nil => exact .fail .comparison []
    | cons x rest =>
        obtain ⟨token, pos⟩ := x
        cases token with
        | equal => exact absurd rfl (hother .equal pos rest)
        | notEqual => exact absurd rfl (hother .notEqual pos rest)
        | greater => exact absurd rfl (hother .greater pos rest)
        | less => exact absurd rfl (hother .less pos rest)
        | _ => exact .fail .comparison _

theorem rereads_condition (input : List Lexeme) :
    Rereads condition input (outcome (Condition.parse input)) := by
  rw [outcome_parseCondition, condition]
  refine (rereads_expression input).bind fun left afterLeft _ => ?_
  refine (rereads_comparison afterLeft).bind fun op afterOp _ => ?_
  exact (rereads_expression afterOp).map fun right => Condition.mk left op right left.pos

/-! ## Statements -/

theorem rereads_value (missing : ParseProblem) (input : List Lexeme) :
    Rereads (value missing) input (outcome (Statement.parseValue missing input)) := by
  by_cases hsign : ∃ (pos : Position) (rest : List Lexeme), input = ⟨.assign, pos⟩ :: rest
  · obtain ⟨pos, rest, rfl⟩ := hsign
    rw [outcome_parseValue_assign, value]
    exact .expect (rereads_expression rest) missing
  · have hother (pos : Position) (rest : List Lexeme) : input ≠ ⟨.assign, pos⟩ :: rest :=
      fun h => hsign ⟨pos, rest, h⟩
    rw [outcome_parseValue_other hother, value]
    exact .expect_other rfl hother missing _

abbrev RereadsStatement (input : List Lexeme) : Prop :=
  RereadsWithin 0 statementWithin input (outcome (Statement.parse input))

abbrev RereadsElse (input : List Lexeme) : Prop :=
  RereadsWithin 0 elseBlockWithin input (outcomeOrNone (Statement.parseElse input))

abbrev RereadsBlock (role : BlockRole) (input : List Lexeme) : Prop :=
  RereadsWithin 0 (blockWithin · role) input (outcome (Statement.parseBlock role input))

abbrev RereadsBody (input : List Lexeme) : Prop :=
  RereadsWithin 1 (fun depth => upTo .closeBrace .closeBrace (statementsWithin depth)) input
    (outcome (Statement.parseBody input))

theorem rereadsStatement_declare (pos : Position) (name : String) (namePos : Position)
    (rest : List Lexeme) :
    RereadsStatement (⟨.varKeyword, pos⟩ :: ⟨.word name, namePos⟩ :: rest) := by
  refine .step fun depth _ => ?_
  rw [outcome_parseStatement_declare, statementWithin]
  refine .peek (.accept ?_)
  rw [declaration]
  refine .peek (.advance ?_)
  exact (rereads_value .declareSign rest).map fun value => Statement.declare name value pos

theorem rereadsStatement_noName
    (hname : ∀ name namePos after, rest ≠ ⟨.word name, namePos⟩ :: after) (pos : Position) :
    RereadsStatement (⟨.varKeyword, pos⟩ :: rest) := by
  refine .step fun depth _ => ?_
  rw [outcome_parseStatement_noName hname, statementWithin]
  refine .peek (.accept ?_)
  rw [declaration]
  refine .peekAny fun lexemes => ?_
  cases rest with
  | nil => exact .fail .declaredName []
  | cons x rest =>
      obtain ⟨token, namePos⟩ := x
      cases token with
      | word name => exact absurd rfl (hname name namePos rest)
      | _ => exact .fail .declaredName _

theorem rereads_guarded {role : BlockRole} {depth : Nat}
    (hdepth : 4 * input.length + (0 : Fin 4) ≤ depth)
    (hblock : ∀ condition : Parsed Condition input, RereadsBlock role condition.rest) :
    Rereads (condition >>= fun test => blockWithin depth role >>= fun body => pure (test, body))
      input (guarded role input) := by
  refine (rereads_condition input).bind fun test after hafter => ?_
  obtain ⟨condition, -, rfl⟩ := exists_of_outcome hafter
  exact ((hblock condition).later condition.shorter hdepth).map (test, ·)

theorem rereadsStatement_loop (pos : Position)
    (hbody : ∀ condition : Parsed Condition rest, RereadsBlock .loopBody condition.rest) :
    RereadsStatement (⟨.forKeyword, pos⟩ :: rest) := by
  refine .step fun depth hdepth => ?_
  rw [outcome_parseStatement_loop, statementWithin]
  refine .peek (.accept_other rfl (by rintro _ _ ⟨⟩) (.accept_other rfl (by rintro _ _ ⟨⟩) ?_))
  refine .accept ?_
  have hinner : 4 * rest.length + (0 : Fin 4) ≤ depth := by
    rw [List.length_cons] at hdepth
    omega
  have h := (rereads_guarded hinner hbody).map fun parsed => Statement.loop parsed.1 parsed.2 pos
  simpa only [bind_assoc, pure_bind] using h

theorem rereads_branch (pos : Position)
    (hthen : ∀ condition : Parsed Condition rest, RereadsBlock .thenBranch condition.rest)
    (helse : ∀ (condition : Parsed Condition rest) (thenBlock : Parsed Block condition.rest),
      RereadsElse thenBlock.rest) :
    RereadsWithin 0 (branchWithin · pos) rest
      ((guarded .thenBranch rest >>= fun parsed =>
        (outcomeOrNone (Statement.parseElse parsed.2)).map fun elseBlock =>
          ((parsed.1, elseBlock.1), elseBlock.2)).map fun parsed =>
            (Statement.branch parsed.1.1.1 parsed.1.1.2 parsed.1.2 pos, parsed.2)) := by
  refine .step fun depth hdepth => ?_
  have h : Rereads ((condition >>= fun test => blockWithin depth .thenBranch >>= fun body =>
      pure (test, body)) >>= fun front => elseBlockWithin depth >>= fun other =>
        pure (front, other)) rest
      (guarded .thenBranch rest >>= fun parsed =>
        (outcomeOrNone (Statement.parseElse parsed.2)).map fun elseBlock =>
          ((parsed.1, elseBlock.1), elseBlock.2)) := by
    refine (rereads_guarded hdepth hthen).bind fun front after hafter => ?_
    obtain ⟨condition, thenBlock, rfl, rfl⟩ := exists_of_guarded hafter
    have hshorter := Nat.lt_trans thenBlock.shorter condition.shorter
    exact ((helse condition thenBlock).later hshorter hdepth).map
      ((condition.value, thenBlock.value), ·)
  have h := h.map fun parsed => Statement.branch parsed.1.1 parsed.1.2 parsed.2 pos
  rw [branchWithin]
  simpa only [bind_assoc, pure_bind] using h

theorem rereadsStatement_branch (pos : Position)
    (hthen : ∀ condition : Parsed Condition rest, RereadsBlock .thenBranch condition.rest)
    (helse : ∀ (condition : Parsed Condition rest) (thenBlock : Parsed Block condition.rest),
      RereadsElse thenBlock.rest) :
    RereadsStatement (⟨.ifKeyword, pos⟩ :: rest) := by
  refine .step fun depth hdepth => ?_
  rw [outcome_parseStatement_branch, statementWithin]
  refine .peek (.accept_other rfl (by rintro _ _ ⟨⟩) (.accept ?_))
  exact (rereads_branch pos hthen helse).later (Nat.lt_succ_self _) hdepth

theorem rereadsStatement_named {name : String} {pos : Position}
    (h : Rereads (named name pos) (⟨.word name, pos⟩ :: rest)
      (outcome (Statement.parse (⟨.word name, pos⟩ :: rest)))) :
    RereadsStatement (⟨.word name, pos⟩ :: rest) := by
  refine .step fun depth _ => ?_
  rw [statementWithin]
  exact .peek (.accept_other rfl (by rintro _ _ ⟨⟩) (.accept_other rfl (by rintro _ _ ⟨⟩)
    (.accept_other rfl (by rintro _ _ ⟨⟩) h)))

theorem rereadsStatement_call {name : String} {command : Command}
    (hname : Command.ofName? name = some command) (pos : Position) (rest : List Lexeme) :
    RereadsStatement (⟨.word name, pos⟩ :: rest) := by
  refine rereadsStatement_named ?_
  rw [outcome_parseStatement_call hname, named, hname]
  exact .advance ((rereads_arguments command rest).map fun args => Statement.call command args pos)

theorem rereadsStatement_unknown {name : String} (hname : Command.ofName? name = none)
    (pos paren : Position) (rest : List Lexeme) :
    RereadsStatement (⟨.word name, pos⟩ :: ⟨.openParen, paren⟩ :: rest) := by
  refine rereadsStatement_named fun lexemes place hat => ?_
  rw [outcome_parseStatement_unknown hname, named, hname]
  refine .behind (result_ahead hat) (Nat.le_refl place) ?_
  exact Rereads.fail (.unknownCommand name) _ lexemes place hat

theorem rereadsStatement_assign {name : String}
    (hopen : ∀ paren after, rest ≠ ⟨.openParen, paren⟩ :: after)
    (hname : Command.ofName? name = none) (pos : Position) :
    RereadsStatement (⟨.word name, pos⟩ :: rest) := by
  refine rereadsStatement_named fun lexemes place hat => ?_
  rw [outcome_parseStatement_assign hopen hname, named, hname]
  refine .behind (result_ahead hat) (Nat.le_refl place) ?_
  have hother : isLike .openParen ((some (front rest lexemes.finish)).bind Prod.fst) = false :=
    isLike_front_other rfl hopen lexemes.finish
  rw [hother]
  have hvalue := (rereads_value .assignSign rest).map fun value => Statement.assign name value pos
  exact Rereads.advance hvalue lexemes place hat

theorem rereadsStatement_other (hvar : ∀ pos rest, input ≠ ⟨.varKeyword, pos⟩ :: rest)
    (hif : ∀ pos rest, input ≠ ⟨.ifKeyword, pos⟩ :: rest)
    (hfor : ∀ pos rest, input ≠ ⟨.forKeyword, pos⟩ :: rest)
    (hword : ∀ name pos rest, input ≠ ⟨.word name, pos⟩ :: rest) : RereadsStatement input := by
  refine .step fun depth _ => ?_
  rw [outcome_parseStatement_other hvar hif hfor hword, statementWithin]
  refine .peekAny fun lexemes => .accept_other rfl hvar (.accept_other rfl hif
    (.accept_other rfl hfor ?_))
  cases input with
  | nil => exact .fail .statement []
  | cons x rest =>
      obtain ⟨token, pos⟩ := x
      cases token with
      | word name => exact absurd rfl (hword name pos rest)
      | _ => exact .fail .statement _

/-! ## Blocks -/

theorem rereadsElse_block (pos : Position) (hblock : RereadsBlock .elseBranch rest) :
    RereadsElse (⟨.elseKeyword, pos⟩ :: rest) := by
  refine .step fun depth hdepth => ?_
  rw [outcomeOrNone_parseElse_block, elseBlockWithin]
  exact .accept ((hblock.later (Nat.lt_succ_self _) hdepth).map some)

theorem rereadsElse_none (helse : ∀ pos rest, input ≠ ⟨.elseKeyword, pos⟩ :: rest) :
    RereadsElse input := by
  refine .step fun depth _ => ?_
  rw [outcomeOrNone_parseElse_none helse, elseBlockWithin]
  exact .accept_other rfl helse (.pure none input)

theorem rereadsBlock_brace (role : BlockRole) (pos : Position) (hbody : RereadsBody rest) :
    RereadsBlock role (⟨.openBrace, pos⟩ :: rest) := by
  refine .step fun depth hdepth => ?_
  rw [outcome_parseBlock_brace, blockWithin]
  exact .expect (hbody.later (Nat.lt_succ_self _) hdepth) _

theorem rereadsBlock_other {role : BlockRole}
    (hbrace : ∀ pos rest, input ≠ ⟨.openBrace, pos⟩ :: rest) : RereadsBlock role input := by
  refine .step fun depth _ => ?_
  rw [outcome_parseBlock_other hbrace, blockWithin]
  exact .expect_other rfl hbrace _ _

theorem rereadsBody_nil : RereadsBody [] := by
  have hends (lexemes : Lexemes) (place : Nat) (h : At lexemes place []) :
      result blockEnds lexemes place = some (.ok true, place) := by
    rw [blockEnds, orM, result_bind_ok (result_check h .closeBrace)]
    exact result_atEnd h
  refine .step fun depth _ => ?_
  rw [outcome_parseBody_nil, statementsWithin, upTo_test]
  exact .look hends (.upTo_nil_other rfl (by rintro _ _ ⟨⟩) _)

theorem rereadsBody_close (closing : Position) (rest : List Lexeme) :
    RereadsBody (⟨.closeBrace, closing⟩ :: rest) := by
  have hends (lexemes : Lexemes) (place : Nat)
      (h : At lexemes place (⟨.closeBrace, closing⟩ :: rest)) :
      result blockEnds lexemes place = some (.ok true, place) := by
    rw [blockEnds, orM, result_bind_ok (result_check_wanted h)]
    rfl
  refine .step fun depth _ => ?_
  rw [outcome_parseBody_close, statementsWithin, upTo_test]
  exact .look hends (.upTo_nil _ _ closing rest)

theorem rereadsBody_more {first : Lexeme} (hclose : ∀ pos, first ≠ ⟨.closeBrace, pos⟩)
    (hfirst : RereadsStatement (first :: rest))
    (hmore : ∀ statement : Parsed Statement (first :: rest), RereadsBody statement.rest) :
    RereadsBody (first :: rest) := by
  have hends (lexemes : Lexemes) (place : Nat) (h : At lexemes place (first :: rest)) :
      result blockEnds lexemes place = some (.ok false, place) := by
    have hother (pos : Position) (after : List Lexeme) :
        first :: rest ≠ ⟨.closeBrace, pos⟩ :: after := fun heq => hclose pos (List.cons.inj heq).1
    rw [blockEnds, orM, result_bind_ok (result_check_other rfl hother h)]
    exact result_atEnd h
  refine .step fun depth hdepth => ?_
  rw [outcome_parseBody_more hclose, statementsWithin, upTo_test, upTo_cons]
  refine .look hends ((hfirst.inside (by decide) hdepth).cons
    (fun rest => outcome (Statement.parseBody rest)) fun value after hvalue => ?_)
  obtain ⟨statement, -, rfl⟩ := exists_of_outcome hvalue
  exact (hmore statement).later statement.shorter hdepth

theorem rereads_statements : (∀ input, RereadsStatement input) ∧ (∀ input, RereadsElse input) ∧
    (∀ role input, RereadsBlock role input) ∧ ∀ input, RereadsBody input := by
  refine Statement.parse.mutual_induct RereadsStatement RereadsElse RereadsBlock RereadsBody
    rereadsStatement_declare ?noName ?branch ?loop ?call ?unknown ?assign ?statement ?block ?none
    ?brace ?noBrace rereadsBody_nil rereadsBody_close ?more
  case noName => exact fun pos _ hname => rereadsStatement_noName hname pos
  case branch => exact fun pos _ hthen helse => rereadsStatement_branch pos hthen helse
  case loop => exact fun pos _ hbody => rereadsStatement_loop pos hbody
  case call => exact fun _ pos _ rest hname => rereadsStatement_call hname pos rest
  case unknown => exact fun _ pos paren rest hname => rereadsStatement_unknown hname pos paren rest
  case assign => exact fun _ pos _ hopen hname => rereadsStatement_assign hopen hname pos
  case statement =>
    exact fun _ _ hvar hif hfor hword => rereadsStatement_other hvar hif hfor hword
  case block => exact fun pos _ hblock => rereadsElse_block pos hblock
  case none => exact fun _ helse => rereadsElse_none helse
  case brace => exact fun role pos _ hbody => rereadsBlock_brace role pos hbody
  case noBrace => exact fun _ _ hbrace => rereadsBlock_other hbrace
  case more => exact fun _ _ hclose hfirst hmore => rereadsBody_more hclose hfirst hmore

theorem rereads_block (role : BlockRole) (input : List Lexeme) :
    Rereads (block role) input (outcome (Statement.parseBlock role input)) :=
  (rereads_statements.2.2.1 role input).rereads

/-! ## Programs -/

theorem rereads_program (input : List Lexeme) :
    Rereads program input ((Program.parse input).map fun program => (program, [])) := by
  rw [parse_eq_whole, program]
  refine (rereads_block .script input).bind fun body rest _ => ?_
  cases rest with
  | nil => exact .look (fun _ _ => result_atEnd) (.pure _ [])
  | cons x rest => exact .look (fun _ _ => result_atEnd) (.fail .endOfScript _)

/-- Reading by places gives the answer for what is left, and leaves the place of what the answer
leaves. -/
theorem result_program {lexemes left : Lexemes} {answer : Except ParseError Program} {place : Nat}
    (hat : At lexemes place input)
    (h : Program.ofLexemes { lexemes with list := input } = (answer, left)) :
    ∃ next, place ≤ next ∧ At lexemes next left.list ∧
      result program lexemes place = some (answer.mapError .wrong, next) := by
  have hagrees := rereads_program input lexemes place hat
  rw [Program.ofLexemes] at h
  cases hparse : Program.parse input <;> simp only [hparse] at h hagrees <;> cases h <;>
    exact hagrees

end FileChores.Cursor
