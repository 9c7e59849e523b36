import FileChores.Proofs.Grammar.Descent.Expr

/-!
# Reading statements

The steps from conditions up to a whole block, in the same manner as those of expressions.
-/

namespace FileChores.Grammar

/-! ## Conditions -/

def comparisonYield (d : Comparison × Position) : List Lexeme := [⟨d.1.token, d.2⟩]

theorem comparisonYield_append_inj (d d' : Comparison × Position) {s t : List Lexeme}
    (h : comparisonYield d ++ s = comparisonYield d' ++ t) : d = d' ∧ s = t := by
  simp only [comparisonYield, List.cons_append, List.nil_append, List.cons.injEq,
    Lexeme.mk.injEq] at h
  obtain ⟨⟨hop, hpos⟩, hrest⟩ := h
  exact ⟨Prod.ext (Comparison.token_inj hop) hpos, hrest⟩

theorem reads_comparison (input : List Lexeme) :
    Reading comparisonYield Prod.fst anything input
      (outcome (Condition.parseComparison input)) := by
  have honly : ∀ d rest, Only comparisonYield anything d rest :=
    fun d _ _ _ d' _ _ h => comparisonYield_append_inj d' d h
  fun_cases Condition.parseComparison input with
  | case1 pos rest => exact ⟨(.equal, pos), rfl, rfl, honly _ _⟩
  | case2 pos rest => exact ⟨(.notEqual, pos), rfl, rfl, honly _ _⟩
  | case3 pos rest => exact ⟨(.greater, pos), rfl, rfl, honly _ _⟩
  | case4 pos rest => exact ⟨(.less, pos), rfl, rfl, honly _ _⟩
  | case5 input hequal hnotEqual hgreater hless =>
      have hop : ∀ op : Comparison, ∀ pos rest, input ≠ ⟨op.token, pos⟩ :: rest := by
        intro op
        cases op with
        | equal => exact hequal
        | notEqual => exact hnotEqual
        | greater => exact hgreater
        | less => exact hless
      rw [outcome_parseComparison_other hop]
      refine Reading.blocked ⟨(.equal, .start), ?_⟩ rfl ?_
      · simp [comparisonYield, Comparison.token, Filler]
      · intro d rest _ hhead
        cases input with
        | nil => simp [comparisonYield] at hhead
        | cons x input =>
            obtain ⟨op, pos⟩ := d
            simp only [comparisonYield, List.cons_append, List.head?_cons,
              Option.some.injEq] at hhead
            subst hhead
            exact hop op pos input rfl

theorem reads_rightSide (left : FileChores.Expr) (input : List Lexeme) :
    Reading (fun d : (Comparison × Position) × Expr => comparisonYield d.1 ++ d.2.yield)
      (fun d => FileChores.Condition.mk left d.1.1 d.2.tree left.pos) EndsExpr input
      (outcome (Condition.parseComparison input) >>= fun op =>
        (outcome (FileChores.Expr.parse op.2)).map fun right =>
          (FileChores.Condition.mk left op.1 right.1 left.pos, right.2)) := by
  refine (reads_comparison input).seq Expr.yield
    (fun op right => FileChores.Condition.mk left op right.tree left.pos)
    (fun op rest => (outcome (FileChores.Expr.parse rest)).map fun right =>
      (FileChores.Condition.mk left op right.1 left.pos, right.2)) ?_ (fun _ _ _ => trivial)
    ⟨.mk (.number 0 .start) .done, by simp [Filler]⟩
  intro op rest _
  exact (readsExpr rest).map fun right => FileChores.Condition.mk left op right left.pos

abbrev ReadsCondition (input : List Lexeme) : Prop :=
  Reading Condition.yield Condition.tree EndsExpr input (outcome (Condition.parse input))

theorem readsCondition (input : List Lexeme) : ReadsCondition input := by
  rw [ReadsCondition, outcome_parseCondition, ← map_id_parsed (_ >>= _)]
  have hseq := (readsExpr input).seq
    (fun d : (Comparison × Position) × Expr => comparisonYield d.1 ++ d.2.yield)
    (fun left d => FileChores.Condition.mk left d.1.1 d.2.tree left.pos)
    (fun left rest => outcome (Condition.parseComparison rest) >>= fun op =>
      (outcome (FileChores.Expr.parse op.2)).map fun right =>
        (FileChores.Condition.mk left op.1 right.1 left.pos, right.2))
    (fun left rest _ => reads_rightSide left rest)
    (fun d rest _ => endsExpr_comparison d.1.1 d.1.2 _)
    ⟨((.equal, .start), .mk (.number 0 .start) .done),
      by simp [comparisonYield, Comparison.token, Filler]⟩
  refine hseq.of_rule (fun d => Condition.mk d.1 d.2.1.1 d.2.1.2 d.2.2) id (fun _ => rfl)
    (fun _ => rfl) ?_
  rintro ⟨left, op, pos, right⟩ rest hends -
  exact ⟨⟨(left, (op, pos), right), rfl⟩, hends⟩

/-! ## Statements -/

def valueYield (d : Position × Expr) : List Lexeme := ⟨.assign, d.1⟩ :: d.2.yield

theorem readsValue (missing : ParseProblem) (hknown : missing.lookahead = 1)
    (input : List Lexeme) :
    Reading valueYield (fun d => d.2.tree) EndsExpr input
      (outcome (Statement.parseValue missing input)) := by
  by_cases hsign : ∃ pos rest, input = ⟨.assign, pos⟩ :: rest
  · obtain ⟨pos, rest, rfl⟩ := hsign
    rw [outcome_parseValue_assign, ← map_id_parsed (outcome _)]
    refine (readsExpr rest).cons ⟨.assign, pos⟩ (fun value => (pos, value)) id (fun _ => rfl)
      (fun _ => rfl) ?_
    rintro ⟨pos', value⟩ s after hends - h
    cases h
    exact ⟨⟨value, rfl⟩, hends⟩
  · have hsign' : ∀ pos rest, input ≠ ⟨.assign, pos⟩ :: rest :=
      fun pos rest h => hsign ⟨pos, rest, h⟩
    rw [outcome_parseValue_other hsign']
    refine Reading.blocked ⟨(.start, .mk (.number 0 .start) .done), ?_⟩ hknown ?_
    · simp [valueYield, Filler]
    · intro d rest _ hhead
      cases input with
      | nil => cases hhead
      | cons x input =>
          cases hhead
          exact hsign' d.1 input rfl

abbrev ReadsStatement (input : List Lexeme) : Prop :=
  Reading Statement.yield Statement.tree EndsStatement input (outcome (Statement.parse input))

abbrev ReadsElse (input : List Lexeme) : Prop :=
  Reading Else.yield Else.trees? EndsStatement input (outcomeOrNone (Statement.parseElse input))

abbrev ReadsBlock (role : BlockRole) (input : List Lexeme) : Prop :=
  Reading Block.yield Block.trees anything input (outcome (Statement.parseBlock role input))

abbrev ReadsBody (input : List Lexeme) : Prop :=
  Reading Body.yield Body.trees anything input (outcome (Statement.parseBody input))

def declaredYield (d : (String × Position) × (Position × Expr)) : List Lexeme :=
  ⟨.word d.1.1, d.1.2⟩ :: valueYield d.2

theorem reads_declare {pos : Position} {rest : List Lexeme}
    {result : Except Stuck ((String × FileChores.Expr) × List Lexeme)}
    (h : Reading declaredYield (fun d => (d.1.1, d.2.2.tree)) EndsExpr rest result) :
    Reading Statement.yield Statement.tree EndsStatement (⟨.varKeyword, pos⟩ :: rest)
      (result.map fun parsed => (.declare parsed.1.1 parsed.1.2 pos, parsed.2)) := by
  refine h.cons ⟨.varKeyword, pos⟩ (fun d => .declare pos d.1.1 d.1.2 d.2.1 d.2.2)
    (fun parsed => FileChores.Statement.declare parsed.1 parsed.2 pos) (fun _ => rfl)
    (fun _ => rfl) ?_
  intro d s after hends _ heq
  cases d with
  | declare pos' name namePos signPos value =>
      cases heq
      exact ⟨⟨((name, namePos), signPos, value), rfl⟩, hends.endsExpr⟩
  | _ => cases heq

theorem readsStatement_declare (pos : Position) (name : String) (namePos : Position)
    (rest : List Lexeme) :
    ReadsStatement (⟨.varKeyword, pos⟩ :: ⟨.word name, namePos⟩ :: rest) := by
  have heq : outcome (Statement.parse (⟨.varKeyword, pos⟩ :: ⟨.word name, namePos⟩ :: rest)) =
      ((outcome (Statement.parseValue .declareSign rest)).map fun value =>
        ((name, value.1), value.2)).map fun parsed =>
          (.declare parsed.1.1 parsed.1.2 pos, parsed.2) := by
    rw [outcome_parseStatement_declare]
    cases outcome (Statement.parseValue .declareSign rest) <;> rfl
  rw [ReadsStatement, heq]
  apply reads_declare
  refine (readsValue .declareSign rfl rest).cons ⟨.word name, namePos⟩
    (fun d => ((name, namePos), d)) (fun value => (name, value)) (fun _ => rfl) (fun _ => rfl) ?_
  rintro ⟨⟨name', namePos'⟩, d⟩ s after hends - h
  cases h
  exact ⟨⟨d, rfl⟩, hends⟩

theorem readsStatement_noName {pos : Position} {rest : List Lexeme}
    (hname : ∀ name namePos after, rest ≠ ⟨.word name, namePos⟩ :: after) :
    ReadsStatement (⟨.varKeyword, pos⟩ :: rest) := by
  have heq : outcome (Statement.parse (⟨.varKeyword, pos⟩ :: rest)) =
      (Except.error ⟨.declaredName, rest⟩ : Except Stuck ((String × FileChores.Expr) × _)).map
        fun parsed => (.declare parsed.1.1 parsed.1.2 pos, parsed.2) := by
    rw [outcome_parseStatement_noName hname]
    rfl
  rw [ReadsStatement, heq]
  refine reads_declare (Reading.blocked ?_ rfl ?_)
  · exact ⟨(("x", .start), .start, .mk (.number 0 .start) .done),
      by simp [declaredYield, valueYield, Filler]⟩
  · intro d s _ hhead
    cases rest with
    | nil => cases hhead
    | cons x rest =>
        cases hhead
        exact hname _ _ rest rfl

theorem free_of_ofName?_eq_none {name : String} (h : Command.ofName? name = none)
    (command : Command) : command.name ≠ name := by
  rintro rfl
  rw [Command.ofName?_name] at h
  cases h

theorem readsStatement_assign {name : String} {pos : Position} {rest : List Lexeme}
    (hopen : ∀ paren after, rest ≠ ⟨.openParen, paren⟩ :: after)
    (hname : Command.ofName? name = none) : ReadsStatement (⟨.word name, pos⟩ :: rest) := by
  rw [ReadsStatement, outcome_parseStatement_assign hopen hname]
  have hfree := free_of_ofName?_eq_none hname
  refine (readsValue .assignSign rfl rest).cons ⟨.word name, pos⟩
    (fun d => .assign name pos hfree d.1 d.2)
    (fun value => FileChores.Statement.assign name value pos) (fun _ => rfl) (fun _ => rfl) ?_
  intro d s after hends _ h
  cases d with
  | assign name' pos' free signPos value =>
      cases h
      exact ⟨⟨(signPos, value), rfl⟩, hends.endsExpr⟩
  | call command pos' args =>
      simp only [Statement.yield, List.cons_append, List.cons.injEq, Lexeme.mk.injEq,
        Token.word.injEq] at h
      exact absurd h.1.1 (hfree command)
  | _ => cases h

theorem readsStatement_call {name : String} {pos : Position} {command : Command}
    {rest : List Lexeme} (hname : Command.ofName? name = some command) :
    ReadsStatement (⟨.word name, pos⟩ :: rest) := by
  rw [ReadsStatement, outcome_parseStatement_call hname]
  obtain rfl := Command.ofName?_eq_some_iff.1 hname
  refine (readsCall command rest).cons ⟨.word command.name, pos⟩ (.call command pos)
    (fun args => FileChores.Statement.call command args pos) (fun _ => rfl) (fun _ => rfl) ?_
  intro d s after _ _ h
  cases d with
  | assign name' pos' free signPos value =>
      simp only [Statement.yield, List.cons_append, List.cons.injEq, Lexeme.mk.injEq,
        Token.word.injEq] at h
      exact absurd h.1.1.symm (free command)
  | call command' pos' args =>
      simp only [Statement.yield, List.cons_append, List.cons.injEq, Lexeme.mk.injEq,
        Token.word.injEq] at h
      obtain ⟨⟨hname', rfl⟩, -⟩ := h
      cases Command.name_inj hname'
      exact ⟨⟨args, rfl⟩, trivial⟩
  | _ => cases h

/-- The one failure that looks at two lexemes: either of them alone may stand there. -/
theorem readsStatement_unknown {name : String} {pos paren : Position} {rest : List Lexeme}
    (hname : Command.ofName? name = none) :
    ReadsStatement (⟨.word name, pos⟩ :: ⟨.openParen, paren⟩ :: rest) := by
  have hfree := free_of_ofName?_eq_none hname
  rw [ReadsStatement, outcome_parseStatement_unknown hname]
  refine ⟨[], rfl, ?_, ?_, ?_⟩
  · have hx := free_of_ofName?_eq_none (show Command.ofName? "x" = none by decide)
    refine ⟨.assign "x" .start hx .start (.mk (.number 0 .start) .done), _, ?_, rfl⟩
    simp [Filler]
  · intro after hseen d s _ heq
    have hafter : after.take 2 = [⟨.word name, pos⟩, ⟨.openParen, paren⟩] := hseen
    rw [List.nil_append] at heq
    rw [← heq] at hafter
    cases d with
    | call command pos' args =>
        simp only [Statement.yield, List.cons_append, List.take_succ_cons, List.cons.injEq,
          Lexeme.mk.injEq, Token.word.injEq] at hafter
        exact hfree command hafter.1.1
    | _ => simp at hafter
  · intro name' hname'
    cases hname'
    refine ⟨hfree, ⟨pos, paren, rest, rfl⟩, [], fun statement => ⟨statement, ?_⟩⟩
    rw [List.nil_append, List.append_nil]

theorem readsStatement_other {input : List Lexeme}
    (hvar : ∀ pos rest, input ≠ ⟨.varKeyword, pos⟩ :: rest)
    (hif : ∀ pos rest, input ≠ ⟨.ifKeyword, pos⟩ :: rest)
    (hfor : ∀ pos rest, input ≠ ⟨.forKeyword, pos⟩ :: rest)
    (hword : ∀ name pos rest, input ≠ ⟨.word name, pos⟩ :: rest) : ReadsStatement input := by
  have hx := free_of_ofName?_eq_none (show Command.ofName? "x" = none by decide)
  rw [ReadsStatement, outcome_parseStatement_other hvar hif hfor hword]
  refine Reading.blocked ⟨.assign "x" .start hx .start (.mk (.number 0 .start) .done), ?_⟩ rfl ?_
  · simp [Filler]
  · intro d s _ hhead
    cases input with
    | nil => cases d <;> simp at hhead
    | cons x input =>
        cases d with
        | declare pos name namePos signPos value => cases hhead; exact hvar pos input rfl
        | assign name pos free signPos value => cases hhead; exact hword name pos input rfl
        | branch pos condition thenBlock elseBlock => cases hhead; exact hif pos input rfl
        | loop pos condition body => cases hhead; exact hfor pos input rfl
        | call command pos args => cases hhead; exact hword command.name pos input rfl

/-! ## Blocks -/

theorem readsBlock_brace {role : BlockRole} {pos : Position} {rest : List Lexeme}
    (hbody : ReadsBody rest) : ReadsBlock role (⟨.openBrace, pos⟩ :: rest) := by
  rw [ReadsBlock, outcome_parseBlock_brace, ← map_id_parsed (outcome _)]
  refine hbody.cons ⟨.openBrace, pos⟩ (.mk pos) id (fun _ => rfl) (fun _ => rfl) ?_
  intro d s after _ _ h
  cases d with
  | mk opening body =>
      cases h
      exact ⟨⟨body, rfl⟩, trivial⟩

theorem readsBlock_other {role : BlockRole} {input : List Lexeme}
    (hbrace : ∀ pos rest, input ≠ ⟨.openBrace, pos⟩ :: rest) : ReadsBlock role input := by
  rw [ReadsBlock, outcome_parseBlock_other hbrace]
  refine Reading.blocked ⟨.mk .start (.close .start), by simp [Filler]⟩ rfl ?_
  intro d s _ hhead
  cases d with
  | mk opening body =>
      cases input with
      | nil => cases hhead
      | cons x input =>
          cases hhead
          exact hbrace opening input rfl

theorem readsBody_nil : ReadsBody [] := by
  rw [ReadsBody, outcome_parseBody_nil]
  refine Reading.blocked ⟨.close .start, by simp [Filler]⟩ rfl ?_
  intro d s _ hhead
  cases d with
  | close closing => cases hhead
  | more first rest => cases first <;> cases hhead

theorem readsBody_close (closing : Position) (rest : List Lexeme) :
    ReadsBody (⟨.closeBrace, closing⟩ :: rest) := by
  rw [ReadsBody, outcome_parseBody_close]
  refine Reading.single (.close closing) rfl rfl fun d _ _ _ h => ?_
  cases d with
  | close closing' => cases h; rfl
  | more first rest => cases first <;> cases h

theorem readsBody_more {first : Lexeme} {rest : List Lexeme}
    (hclose : ∀ pos, first ≠ ⟨.closeBrace, pos⟩) (hfirst : ReadsStatement (first :: rest))
    (hmore : ∀ statement : Parsed FileChores.Statement (first :: rest), ReadsBody statement.rest) :
    ReadsBody (first :: rest) := by
  have hsecond : ∀ value after, outcome (Statement.parse (first :: rest)) = .ok (value, after) →
      Reading Body.yield (fun more => value :: more.trees) anything after
        ((outcome (Statement.parseBody after)).map fun more => (value :: more.1, more.2)) := by
    intro value after hvalue
    obtain ⟨statement, rfl, rfl⟩ := exists_of_outcome hvalue
    exact (hmore statement).map (statement.value :: ·)
  have hseq := hfirst.seq Body.yield (fun statement more => statement :: more.trees) _ hsecond
    (fun more rest _ => more.endsStatement_next rest) ⟨.close .start, by simp [Filler]⟩
  rw [ReadsBody, outcome_parseBody_more hclose, ← map_id_parsed (_ >>= _)]
  refine hseq.of_rule (fun d => .more d.1 d.2) id (fun _ => rfl) (fun _ => rfl) ?_
  intro d s _ hhead
  cases d with
  | close closing =>
      cases hhead
      exact absurd rfl (hclose closing)
  | more statement body => exact ⟨⟨(statement, body), rfl⟩, trivial⟩

theorem readsElse_block {pos : Position} {rest : List Lexeme}
    (hblock : ReadsBlock .elseBranch rest) : ReadsElse (⟨.elseKeyword, pos⟩ :: rest) := by
  rw [ReadsElse, outcomeOrNone_parseElse_block]
  refine hblock.cons ⟨.elseKeyword, pos⟩ (.block pos) some (fun _ => rfl) (fun _ => rfl) ?_
  intro d s after hends _ h
  cases d with
  | none =>
      rw [Else.yield, List.nil_append] at h
      exact absurd (congrArg next h) hends.2
  | block pos' block =>
      cases h
      exact ⟨⟨block, rfl⟩, trivial⟩

theorem readsElse_none {input : List Lexeme}
    (helse : ∀ pos rest, input ≠ ⟨.elseKeyword, pos⟩ :: rest) : ReadsElse input := by
  rw [ReadsElse, outcomeOrNone_parseElse_none helse]
  refine ⟨.none, rfl, rfl, ?_⟩
  intro after hafter d rest _ h
  cases d with
  | none => exact ⟨rfl, h⟩
  | block pos block =>
      rw [Else.yield, Else.yield, List.nil_append] at h
      rw [← h] at hafter
      cases input with
      | nil => cases hafter
      | cons x input =>
          cases hafter
          exact absurd rfl (helse pos input)

theorem reads_guarded (role : BlockRole) (input : List Lexeme)
    (hblock : ∀ condition : Parsed FileChores.Condition input, ReadsBlock role condition.rest) :
    Reading (fun d : Condition × Block => d.1.yield ++ d.2.yield)
      (fun d => (d.1.tree, d.2.trees)) anything input (guarded role input) := by
  have hsecond : ∀ value after, outcome (Condition.parse input) = .ok (value, after) →
      Reading Block.yield (fun block => (value, block.trees)) anything after
        ((outcome (Statement.parseBlock role after)).map fun block =>
          ((value, block.1), block.2)) := by
    intro value after hvalue
    obtain ⟨condition, rfl, rfl⟩ := exists_of_outcome hvalue
    exact (hblock condition).map (condition.value, ·)
  exact (readsCondition input).seq Block.yield (fun condition block => (condition, block.trees)) _
    hsecond (fun block rest _ => block.endsExpr_next rest)
    ⟨.mk .start (.close .start), by simp [Filler]⟩

theorem readsStatement_loop {pos : Position} {rest : List Lexeme}
    (hbody : ∀ condition : Parsed FileChores.Condition rest,
      ReadsBlock .loopBody condition.rest) : ReadsStatement (⟨.forKeyword, pos⟩ :: rest) := by
  rw [ReadsStatement, outcome_parseStatement_loop]
  refine (reads_guarded .loopBody rest hbody).cons ⟨.forKeyword, pos⟩ (fun d => .loop pos d.1 d.2)
    (fun parsed => FileChores.Statement.loop parsed.1 parsed.2 pos) (fun _ => rfl) (fun _ => rfl) ?_
  intro d s after _ _ h
  cases d with
  | loop pos' condition body =>
      cases h
      exact ⟨⟨(condition, body), rfl⟩, trivial⟩
  | _ => cases h

theorem readsStatement_branch {pos : Position} {rest : List Lexeme}
    (hthen : ∀ condition : Parsed FileChores.Condition rest,
      ReadsBlock .thenBranch condition.rest)
    (helse : ∀ (condition : Parsed FileChores.Condition rest)
      (thenBlock : Parsed FileChores.Block condition.rest), ReadsElse thenBlock.rest) :
    ReadsStatement (⟨.ifKeyword, pos⟩ :: rest) := by
  have hsecond : ∀ value after, guarded .thenBranch rest = .ok (value, after) →
      Reading Else.yield (fun elseBlock => (value, elseBlock.trees?)) EndsStatement after
        ((outcomeOrNone (Statement.parseElse after)).map fun elseBlock =>
          ((value, elseBlock.1), elseBlock.2)) := by
    intro value after hvalue
    obtain ⟨condition, thenBlock, rfl, rfl⟩ := exists_of_guarded hvalue
    exact (helse condition thenBlock).map ((condition.value, thenBlock.value), ·)
  have hseq := (reads_guarded .thenBranch rest hthen).seq Else.yield
    (fun value elseBlock => (value, elseBlock.trees?)) _ hsecond (fun _ _ _ => trivial)
    ⟨.none, by simp⟩
  rw [ReadsStatement, outcome_parseStatement_branch]
  refine hseq.cons ⟨.ifKeyword, pos⟩ (fun d => .branch pos d.1.1 d.1.2 d.2)
    (fun parsed => FileChores.Statement.branch parsed.1.1 parsed.1.2 parsed.2 pos)
    (fun d => by rw [Statement.yield, List.append_assoc]) (fun _ => rfl) ?_
  intro d s after hends _ h
  cases d with
  | branch pos' condition thenBlock elseBlock =>
      cases h
      exact ⟨⟨((condition, thenBlock), elseBlock), rfl⟩, hends⟩
  | _ => cases h

theorem reads_statements : (∀ input, ReadsStatement input) ∧ (∀ input, ReadsElse input) ∧
    (∀ role input, ReadsBlock role input) ∧ ∀ input, ReadsBody input := by
  refine Statement.parse.mutual_induct ReadsStatement ReadsElse ReadsBlock ReadsBody
    readsStatement_declare ?noName ?branch ?loop ?call ?unknown ?assign ?statement ?block ?none
    ?brace ?noBrace readsBody_nil readsBody_close ?more
  case noName => exact fun _ _ hname => readsStatement_noName hname
  case branch => exact fun _ _ hthen helse => readsStatement_branch hthen helse
  case loop => exact fun _ _ hbody => readsStatement_loop hbody
  case call => exact fun _ _ _ _ hname => readsStatement_call hname
  case unknown => exact fun _ _ _ _ hname => readsStatement_unknown hname
  case assign => exact fun _ _ _ hopen hname => readsStatement_assign hopen hname
  case statement =>
    exact fun _ _ hvar hif hfor hword => readsStatement_other hvar hif hfor hword
  case block => exact fun _ _ hblock => readsElse_block hblock
  case none => exact fun _ helse => readsElse_none helse
  case brace => exact fun _ _ _ hbody => readsBlock_brace hbody
  case noBrace => exact fun _ _ hbrace => readsBlock_other hbrace
  case more => exact fun _ _ hclose hfirst hmore => readsBody_more hclose hfirst hmore

theorem readsBlock (role : BlockRole) (input : List Lexeme) : ReadsBlock role input :=
  reads_statements.2.2.1 role input

end FileChores.Grammar
