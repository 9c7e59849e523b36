import FileChores.Proofs.Grammar.Reading
import FileChores.Proofs.Grammar.Steps

/-!
# Every step of the parser is a reading

One lemma for each step, under the assumption that the steps it calls are readings, and the
inductions along the calls that put them together.
-/

namespace FileChores.Grammar

/-! ## Expressions -/

theorem map_id_parsed {α : Type} (result : Except Stuck (α × List Lexeme)) :
    (result.map fun parsed => (id parsed.1, parsed.2)) = result := by
  cases result <;> rfl

abbrev ReadsPrimary (input : List Lexeme) : Prop :=
  Reading Primary.yield Primary.tree anything input (outcome (Expr.parsePrimary input))

abbrev ReadsCall (command : Command) (input : List Lexeme) : Prop :=
  Reading Call.yield Call.trees anything input (outcome (Expr.parseCall command input))

abbrev ReadsArguments (command : Command) (input : List Lexeme) : Prop :=
  Reading Arguments.yield Arguments.trees anything input
    (outcome (Expr.parseArguments command input))

abbrev ReadsExpr (input : List Lexeme) : Prop :=
  Reading Expr.yield Expr.tree EndsExpr input (outcome (Expr.parse input))

abbrev ReadsChain (left : FileChores.Expr) (input : List Lexeme) : Prop :=
  Reading Chain.yield (Chain.tree left) EndsExpr input (outcomeOrNone (Expr.parseChain left input))

theorem plain_of_filter_eq_none {name : String}
    (h : (Command.ofName? name).filter Command.isQuery = none) (command : Command)
    (isQuery : command.isQuery = true) : command.name ≠ name := by
  rintro rfl
  rw [Command.ofName?_name, Option.filter_some, if_pos isQuery] at h
  cases h

theorem eq_query_of_filter_eq_some {name : String} {command : Command}
    (h : (Command.ofName? name).filter Command.isQuery = some command) :
    name = command.name ∧ command.isQuery = true := by
  obtain ⟨hname, isQuery⟩ := Option.filter_eq_some_iff.1 h
  exact ⟨Command.ofName?_eq_some_iff.1 hname, isQuery⟩

theorem readsPrimary_number (value : Float) (pos : Position) (rest : List Lexeme) :
    ReadsPrimary (⟨.number value, pos⟩ :: rest) := by
  rw [ReadsPrimary, outcome_parsePrimary_number]
  refine Reading.single (.number value pos) rfl rfl fun d _ _ _ h => ?_
  cases d <;> simp_all

theorem readsPrimary_text (content : String) (pos : Position) (rest : List Lexeme) :
    ReadsPrimary (⟨.text content, pos⟩ :: rest) := by
  rw [ReadsPrimary, outcome_parsePrimary_text]
  refine Reading.single (.text content pos) rfl rfl fun d _ _ _ h => ?_
  cases d <;> simp_all

theorem readsPrimary_query {name : String} {pos : Position} {rest : List Lexeme}
    {command : Command} (hname : (Command.ofName? name).filter Command.isQuery = some command)
    (hargs : ReadsCall command rest) : ReadsPrimary (⟨.word name, pos⟩ :: rest) := by
  obtain ⟨rfl, isQuery⟩ := eq_query_of_filter_eq_some hname
  rw [ReadsPrimary, outcome_parsePrimary_query hname]
  refine hargs.cons ⟨.word command.name, pos⟩ (Primary.query command isQuery pos)
    (fun args => FileChores.Expr.query command args pos) (fun _ => rfl) (fun _ => rfl) ?_
  intro d s after _ _ h
  cases d with
  | word name' pos' plain =>
      simp only [Primary.yield, List.cons_append, List.cons.injEq, Lexeme.mk.injEq,
        Token.word.injEq] at h
      exact absurd h.1.1.symm (plain command isQuery)
  | query command' isQuery' pos' args =>
      simp only [Primary.yield, List.cons_append, List.cons.injEq, Lexeme.mk.injEq,
        Token.word.injEq] at h
      obtain ⟨⟨hname', rfl⟩, -⟩ := h
      cases Command.name_inj hname'
      exact ⟨⟨args, rfl⟩, trivial⟩
  | _ => simp at h

theorem readsPrimary_word {name : String} {pos : Position} {rest : List Lexeme}
    (hname : (Command.ofName? name).filter Command.isQuery = none) :
    ReadsPrimary (⟨.word name, pos⟩ :: rest) := by
  rw [ReadsPrimary, outcome_parsePrimary_word hname]
  have hplain := plain_of_filter_eq_none hname
  refine Reading.single (.word name pos hplain) rfl rfl fun d _ _ _ h => ?_
  cases d with
  | query command isQuery pos' args =>
      simp only [Primary.yield, List.cons_append, List.cons.injEq, Lexeme.mk.injEq,
        Token.word.injEq] at h
      exact absurd h.1.1 (hplain command isQuery)
  | _ => simp_all

theorem readsPrimary_other {input : List Lexeme}
    (hnumber : ∀ value pos rest, input ≠ ⟨.number value, pos⟩ :: rest)
    (htext : ∀ content pos rest, input ≠ ⟨.text content, pos⟩ :: rest)
    (hword : ∀ name pos rest, input ≠ ⟨.word name, pos⟩ :: rest) : ReadsPrimary input := by
  rw [ReadsPrimary, outcome_parsePrimary_other hnumber htext hword]
  refine Reading.blocked ⟨.number 0 .start, ?_⟩ rfl ?_
  · simp [Filler]
  · intro d rest _ hhead
    cases input with
    | nil => cases d <;> simp at hhead
    | cons x input => cases d <;> simp at hhead <;> subst hhead <;> simp_all

theorem readsCall_empty (command : Command) (opening closing : Position) (rest : List Lexeme) :
    ReadsCall command (⟨.openParen, opening⟩ :: ⟨.closeParen, closing⟩ :: rest) := by
  rw [ReadsCall, outcome_parseCall_empty]
  refine ⟨.empty opening closing, rfl, rfl, ?_⟩
  intro after _ d rest' _ h
  cases d with
  | empty opening' closing' =>
      cases h
      exact ⟨rfl, rfl⟩
  | args opening' first more =>
      cases first with
      | mk primary chain => cases primary <;> simp at h

theorem reads_arguments (command : Command) {input : List Lexeme} (hfirst : ReadsExpr input)
    (hmore : ∀ first : Parsed FileChores.Expr input, ReadsArguments command first.rest) :
    Reading (fun d : Expr × Arguments => d.1.yield ++ d.2.yield)
      (fun d => d.1.tree :: d.2.trees) anything input
      (outcome (Expr.parse input) >>= fun first =>
        (outcome (Expr.parseArguments command first.2)).map fun more =>
          (first.1 :: more.1, more.2)) := by
  refine hfirst.seq Arguments.yield (fun first more => first :: more.trees)
    (fun value rest => (outcome (Expr.parseArguments command rest)).map fun more =>
      (value :: more.1, more.2)) ?_ ?_ ?_
  · intro value rest hvalue
    obtain ⟨first, rfl, rfl⟩ := exists_of_outcome hvalue
    exact (hmore first).map (first.value :: ·)
  · exact fun more rest _ => more.endsExpr_next rest
  · exact ⟨.close .start, by simp [Filler]⟩

theorem readsCall_args {command : Command} {opening : Position} {rest : List Lexeme}
    (hargs : ∀ pos after, rest ≠ ⟨.closeParen, pos⟩ :: after) (hfirst : ReadsExpr rest)
    (hmore : ∀ first : Parsed FileChores.Expr rest, ReadsArguments command first.rest) :
    ReadsCall command (⟨.openParen, opening⟩ :: rest) := by
  rw [ReadsCall, outcome_parseCall_args hargs, ← map_id_parsed (_ >>= _)]
  refine (reads_arguments command hfirst hmore).cons ⟨.openParen, opening⟩
    (fun d => .args opening d.1 d.2) id (fun _ => rfl) (fun _ => rfl) ?_
  intro d s after _ hhead h
  cases d with
  | empty opening' closing =>
      rw [Call.yield, List.cons_append, List.cons.injEq] at h
      rw [← h.2] at hhead
      cases rest with
      | nil => cases hhead
      | cons x rest =>
          cases hhead
          exact absurd rfl (hargs closing rest)
  | args opening' first more =>
      cases h
      exact ⟨⟨(first, more), rfl⟩, trivial⟩

theorem readsCall_other {command : Command} {input : List Lexeme}
    (hopen : ∀ pos rest, input ≠ ⟨.openParen, pos⟩ :: rest) : ReadsCall command input := by
  rw [ReadsCall, outcome_parseCall_other hopen]
  refine Reading.blocked ⟨.empty .start .start, by simp [Filler]⟩ rfl ?_
  intro d rest _ hhead
  cases input with
  | nil => cases d <;> simp at hhead
  | cons x input => cases d <;> simp at hhead <;> exact hopen _ _ (by rw [← hhead])

theorem readsArguments_close (command : Command) (closing : Position) (rest : List Lexeme) :
    ReadsArguments command (⟨.closeParen, closing⟩ :: rest) := by
  rw [ReadsArguments, outcome_parseArguments_close]
  refine Reading.single (.close closing) rfl rfl fun d _ _ _ h => ?_
  cases d <;> simp_all

theorem readsArguments_comma {command : Command} {pos : Position} {rest : List Lexeme}
    (hnext : ReadsExpr rest)
    (hmore : ∀ next : Parsed FileChores.Expr rest, ReadsArguments command next.rest) :
    ReadsArguments command (⟨.comma, pos⟩ :: rest) := by
  rw [ReadsArguments, outcome_parseArguments_comma, ← map_id_parsed (_ >>= _)]
  refine (reads_arguments command hnext hmore).cons ⟨.comma, pos⟩ (fun d => .comma pos d.1 d.2) id
    (fun _ => rfl) (fun _ => rfl) ?_
  intro d s after _ _ h
  cases d with
  | close closing => cases h
  | comma pos' next more =>
      cases h
      exact ⟨⟨(next, more), rfl⟩, trivial⟩

theorem readsArguments_other {command : Command} {input : List Lexeme}
    (hclose : ∀ pos rest, input ≠ ⟨.closeParen, pos⟩ :: rest)
    (hcomma : ∀ pos rest, input ≠ ⟨.comma, pos⟩ :: rest) : ReadsArguments command input := by
  rw [ReadsArguments, outcome_parseArguments_other hclose hcomma]
  refine Reading.blocked ⟨.close .start, by simp [Filler]⟩ rfl ?_
  intro d rest _ hhead
  cases input with
  | nil => cases d <;> simp at hhead
  | cons x input =>
      cases d with
      | close closing => exact hclose _ _ (by simp at hhead; rw [← hhead])
      | comma pos next more => exact hcomma _ _ (by simp at hhead; rw [← hhead])

theorem reads_chain (link : FileChores.Expr → FileChores.Expr) {input : List Lexeme}
    (hfirst : ReadsPrimary input)
    (hchain : ∀ first : Parsed FileChores.Expr input, ReadsChain (link first.value) first.rest) :
    Reading (fun d : Primary × Chain => d.1.yield ++ d.2.yield)
      (fun d => d.2.tree (link d.1.tree)) EndsExpr input
      (outcome (Expr.parsePrimary input) >>= fun first =>
        outcomeOrNone (Expr.parseChain (link first.1) first.2)) := by
  refine hfirst.seq Chain.yield (fun first chain => chain.tree (link first))
    (fun value rest => outcomeOrNone (Expr.parseChain (link value) rest)) ?_
    (fun _ _ _ => trivial) ⟨.done, by simp⟩
  intro value rest hvalue
  obtain ⟨first, rfl, rfl⟩ := exists_of_outcome hvalue
  exact hchain first

theorem readsExpr_chain {input : List Lexeme} (hfirst : ReadsPrimary input)
    (hchain : ∀ first : Parsed FileChores.Expr input, ReadsChain first.value first.rest) :
    ReadsExpr input := by
  rw [ReadsExpr, outcome_parse, ← map_id_parsed (_ >>= _)]
  refine (reads_chain id hfirst hchain).of_rule (fun d => .mk d.1 d.2) id (fun _ => rfl)
    (fun _ => rfl) ?_
  intro d rest hends _
  cases d with
  | mk first chain => exact ⟨⟨(first, chain), rfl⟩, hends⟩

theorem readsChain_link {left : FileChores.Expr} (op : Operator) {pos : Position}
    {rest : List Lexeme} (hfirst : ReadsPrimary rest)
    (hchain : ∀ right : Parsed FileChores.Expr rest,
      ReadsChain (.binary op left right.value pos) right.rest) :
    ReadsChain left (⟨op.token, pos⟩ :: rest) := by
  rw [ReadsChain, outcomeOrNone_parseChain_link, ← map_id_parsed (_ >>= _)]
  refine (reads_chain (fun right => .binary op left right pos) hfirst hchain).cons ⟨op.token, pos⟩
    (fun d => .link op pos d.1 d.2) id (fun _ => rfl) (fun _ => rfl) ?_
  intro d s after hends _ h
  cases d with
  | done =>
      rw [Chain.yield, List.nil_append] at h
      exact absurd (congrArg next h) (hends op)
  | link op' pos' first more =>
      simp only [Chain.yield, List.cons_append, List.cons.injEq, Lexeme.mk.injEq] at h
      obtain ⟨⟨hop, rfl⟩, -⟩ := h
      cases Operator.token_inj hop
      exact ⟨⟨(first, more), rfl⟩, hends⟩

theorem readsChain_done {left : FileChores.Expr} {input : List Lexeme}
    (hplus : ∀ pos rest, input ≠ ⟨.plus, pos⟩ :: rest)
    (hminus : ∀ pos rest, input ≠ ⟨.minus, pos⟩ :: rest) : ReadsChain left input := by
  rw [ReadsChain, outcomeOrNone_parseChain_done hplus hminus]
  refine ⟨.done, rfl, rfl, ?_⟩
  intro after hafter d rest _ h
  cases d with
  | done => exact ⟨rfl, h⟩
  | link op pos first more =>
      rw [Chain.yield, Chain.yield, List.nil_append] at h
      rw [← h] at hafter
      cases input with
      | nil => cases hafter
      | cons x input =>
          cases hafter
          cases op with
          | add => exact absurd rfl (hplus pos input)
          | sub => exact absurd rfl (hminus pos input)

theorem reads_exprs : (∀ input, ReadsPrimary input) ∧ (∀ command input, ReadsCall command input) ∧
    (∀ command input, ReadsArguments command input) ∧ (∀ input, ReadsExpr input) ∧
    ∀ left input, ReadsChain left input := by
  refine Expr.parsePrimary.mutual_induct ReadsPrimary ReadsCall ReadsArguments ReadsExpr ReadsChain
    readsPrimary_number readsPrimary_text ?query ?word ?primary ?empty ?args ?call ?close ?comma
    ?arguments ?expr ?plus ?minus ?done
  case query => exact fun _ _ _ _ hname hargs => readsPrimary_query hname hargs
  case word => exact fun _ _ _ hname => readsPrimary_word hname
  case primary => exact fun _ hnumber htext hword => readsPrimary_other hnumber htext hword
  case empty => exact readsCall_empty
  case args => exact fun _ _ _ hargs hfirst hmore => readsCall_args hargs hfirst hmore
  case call => exact fun _ _ _ hopen => readsCall_other hopen
  case close => exact readsArguments_close
  case comma => exact fun _ _ _ hnext hmore => readsArguments_comma hnext hmore
  case arguments => exact fun _ _ hclose hcomma => readsArguments_other hclose hcomma
  case expr => exact fun _ hfirst hchain => readsExpr_chain hfirst hchain
  case plus => exact fun _ _ _ hfirst hchain => readsChain_link .add hfirst hchain
  case minus => exact fun _ _ _ hfirst hchain => readsChain_link .sub hfirst hchain
  case done => exact fun _ _ hplus hminus => readsChain_done hplus hminus

theorem readsCall (command : Command) (input : List Lexeme) : ReadsCall command input :=
  reads_exprs.2.1 command input

theorem readsExpr (input : List Lexeme) : ReadsExpr input :=
  reads_exprs.2.2.2.1 input

end FileChores.Grammar
