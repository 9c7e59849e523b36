import FileChores.Program.Parser
import FileChores.Proofs.Grammar.Derivation

/-!
# Where reading is blocked

Reading a phrase may stop in front of a lexeme that cannot stand there. `Blocked` says that this is
the first such place: what was read goes on to a phrase, and nothing that begins with what was read
and with what was looked at does. `Only` says that no other phrase could have been read. Both speak
of the lexemes that were looked at and of nothing behind them, and the lemmas carry them from the
parts of a rule to the whole.
-/

namespace FileChores

/-- How many lexemes are looked at before reading stops for the problem. -/
def ParseProblem.lookahead : ParseProblem → Nat
  | unknownCommand _ => 2
  | _ => 1

theorem ParseProblem.lookahead_pos (problem : ParseProblem) : 0 < problem.lookahead := by
  cases problem <;> simp [lookahead]

theorem Operator.token_inj {op op' : Operator} (h : op.token = op'.token) : op = op' := by
  cases op <;> cases op' <;> first | rfl | cases h

theorem Comparison.token_inj {op op' : Comparison} (h : op.token = op'.token) : op = op' := by
  cases op <;> cases op' <;> first | rfl | cases h

end FileChores

namespace FileChores.Grammar

/-! ## What follows a phrase -/

def next (lexemes : List Lexeme) : Option Token :=
  lexemes.head?.map (·.token)

@[simp] theorem next_nil : next [] = none := rfl

@[simp] theorem next_cons (first : Lexeme) (rest : List Lexeme) :
    next (first :: rest) = some first.token := rfl

def anything (_ : Option Token) : Prop := True

def EndsExpr (token : Option Token) : Prop :=
  ∀ op : Operator, token ≠ some op.token

def EndsStatement (token : Option Token) : Prop :=
  EndsExpr token ∧ token ≠ some .elseKeyword

theorem EndsStatement.endsExpr {token : Option Token} (h : EndsStatement token) : EndsExpr token :=
  h.1

theorem Arguments.endsExpr_next (args : Arguments) (rest : List Lexeme) :
    EndsExpr (next (args.yield ++ rest)) := by
  intro op
  cases args <;> cases op <;> simp [Operator.token]

theorem Block.endsExpr_next (block : Block) (rest : List Lexeme) :
    EndsExpr (next (block.yield ++ rest)) := by
  intro op
  cases block
  cases op <;> simp [Operator.token]

theorem endsExpr_comparison (op : Comparison) (pos : Position) (rest : List Lexeme) :
    EndsExpr (next (⟨op.token, pos⟩ :: rest)) := by
  intro op'
  cases op <;> cases op' <;> simp [Operator.token, Comparison.token]

theorem Statement.endsStatement_next (statement : Statement) (rest : List Lexeme) :
    EndsStatement (next (statement.yield ++ rest)) := by
  refine ⟨fun op => ?_, ?_⟩
  · cases statement <;> cases op <;> simp [Operator.token]
  · cases statement <;> simp

theorem Body.endsStatement_next (body : Body) (rest : List Lexeme) :
    EndsStatement (next (body.yield ++ rest)) := by
  cases body with
  | close closing =>
      refine ⟨fun op => ?_, ?_⟩
      · cases op <;> simp [Operator.token]
      · simp
  | more first rest' =>
      rw [Body.yield, List.append_assoc]
      exact first.endsStatement_next _

/-! ## Reading and being blocked -/

def Filler (x : Lexeme) : Prop :=
  x.token ∈ [.number 0, .word "x", .equal, .assign, .openParen, .closeParen, .openBrace,
    .closeBrace]

def SeenAgain (stuck : Stuck) (after : List Lexeme) : Prop :=
  after.take stuck.problem.lookahead = stuck.rest.take stuck.problem.lookahead

section

variable {A B D : Type}

/-- In front of whatever starts like `rest`, the phrase `d` is the only one. -/
def Only (yield : D → List Lexeme) (ends : Option Token → Prop) (d : D) (rest : List Lexeme) :
    Prop :=
  ∀ after, after.head? = rest.head? → ∀ d' rest', ends (next rest') →
    yield d' ++ rest' = yield d ++ after → d' = d ∧ rest' = after

/-- Reading a phrase has got as far as `read` and cannot go on at `stuck`. -/
structure Blocked (yield : D → List Lexeme) (ends : Option Token → Prop) (read : List Lexeme)
    (stuck : Stuck) : Prop where
  viable : ∃ d more, (∀ x ∈ more, Filler x) ∧ yield d = read ++ more
  dead : ∀ after, SeenAgain stuck after → ∀ d rest, ends (next rest) →
    yield d ++ rest ≠ read ++ after
  /-- An unknown command is a word in front of a parenthesis, where a statement may stand. -/
  unknown : ∀ name, stuck.problem = .unknownCommand name →
    (∀ command : Command, command.name ≠ name) ∧
    (∃ pos paren after, stuck.rest = ⟨.word name, pos⟩ :: ⟨.openParen, paren⟩ :: after) ∧
    ∃ more, ∀ statement : Statement, ∃ d, yield d = read ++ (statement.yield ++ more)

theorem SeenAgain.refl (stuck : Stuck) : SeenAgain stuck stuck.rest := rfl

theorem SeenAgain.head? {stuck : Stuck} {after : List Lexeme} (h : SeenAgain stuck after) :
    after.head? = stuck.rest.head? := by
  have hpos := stuck.problem.lookahead_pos
  have := congrArg List.head? h
  rwa [List.head?_take, List.head?_take, if_neg (by omega), if_neg (by omega)] at this

theorem head?_append_congr {s t : List Lexeme} (h : s.head? = t.head?) (read : List Lexeme) :
    (read ++ s).head? = (read ++ t).head? := by
  rw [List.head?_append, List.head?_append, h]

theorem SeenAgain.head?_append {stuck : Stuck} {after : List Lexeme} (h : SeenAgain stuck after)
    (read : List Lexeme) : (read ++ after).head? = (read ++ stuck.rest).head? :=
  head?_append_congr h.head? read

namespace Blocked

variable {yieldA : A → List Lexeme} {yieldB : B → List Lexeme} {yield : D → List Lexeme}
variable {endsA ends : Option Token → Prop} {read : List Lexeme} {stuck : Stuck}

theorem here (hviable : ∃ d, ∀ x ∈ yield d, Filler x)
    (hknown : stuck.problem.lookahead = 1)
    (hdead : ∀ d rest, ends (next rest) → (yield d ++ rest).head? ≠ stuck.rest.head?) :
    Blocked yield ends [] stuck where
  viable :=
    let ⟨d, hfill⟩ := hviable
    ⟨d, yield d, hfill, rfl⟩
  dead after hseen d rest hends heq := by
    apply hdead d rest hends
    rw [heq, List.nil_append, hseen.head?]
  unknown name hname := by
    rw [hname] at hknown
    cases hknown

/-- It is enough to look at the rule that the lexeme in front selects. -/
theorem of_rule (h : Blocked yieldA endsA read stuck) (build : A → D)
    (hyield : ∀ a, yield (build a) = yieldA a)
    (hrule : ∀ d rest, ends (next rest) → (yield d ++ rest).head? = (read ++ stuck.rest).head? →
      (∃ a, build a = d) ∧ endsA (next rest)) : Blocked yield ends read stuck where
  viable := by
    obtain ⟨a, more, hfill, hmore⟩ := h.viable
    exact ⟨build a, more, hfill, by rw [hyield, hmore]⟩
  dead after hseen d rest hends heq := by
    have hhead : (yield d ++ rest).head? = (read ++ stuck.rest).head? := by
      rw [heq, hseen.head?_append]
    obtain ⟨⟨a, rfl⟩, hends'⟩ := hrule d rest hends hhead
    rw [hyield] at heq
    exact h.dead after hseen a rest hends' heq
  unknown name hname := by
    obtain ⟨hfree, hrest, more, hmore⟩ := h.unknown name hname
    refine ⟨hfree, hrest, more, fun statement => ?_⟩
    obtain ⟨a, ha⟩ := hmore statement
    exact ⟨build a, by rw [hyield, ha]⟩

theorem cons (h : Blocked yieldA endsA read stuck) (x : Lexeme) (build : A → D)
    (hyield : ∀ a, yield (build a) = x :: yieldA a)
    (hrule : ∀ d rest after, ends (next rest) → after.head? = (read ++ stuck.rest).head? →
      yield d ++ rest = x :: after → (∃ a, build a = d) ∧ endsA (next rest)) :
    Blocked yield ends (x :: read) stuck where
  viable := by
    obtain ⟨a, more, hfill, hmore⟩ := h.viable
    exact ⟨build a, more, hfill, by rw [hyield, hmore, List.cons_append]⟩
  dead after hseen d rest hends heq := by
    obtain ⟨⟨a, rfl⟩, hends'⟩ := hrule d rest _ hends (hseen.head?_append read) heq
    rw [hyield] at heq
    exact h.dead after hseen a rest hends' (List.cons.inj heq).2
  unknown name hname := by
    obtain ⟨hfree, hrest, more, hmore⟩ := h.unknown name hname
    refine ⟨hfree, hrest, more, fun statement => ?_⟩
    obtain ⟨a, ha⟩ := hmore statement
    exact ⟨build a, by rw [hyield, ha, List.cons_append]⟩

theorem fst (h : Blocked yieldA endsA read stuck) (hfill : ∃ b, ∀ x ∈ yieldB b, Filler x)
    (hfollow : ∀ b rest, ends (next rest) → endsA (next (yieldB b ++ rest))) :
    Blocked (fun d : A × B => yieldA d.1 ++ yieldB d.2) ends read stuck where
  viable := by
    obtain ⟨a, more, hmore, ha⟩ := h.viable
    obtain ⟨b, hb⟩ := hfill
    refine ⟨(a, b), more ++ yieldB b, ?_, ?_⟩
    · intro x hx
      rcases List.mem_append.1 hx with hx | hx
      · exact hmore x hx
      · exact hb x hx
    · rw [ha, List.append_assoc]
  dead after hseen d rest hends := by
    rw [List.append_assoc]
    exact h.dead after hseen d.1 _ (hfollow d.2 rest hends)
  unknown name hname := by
    obtain ⟨hfree, hrest, more, hmore⟩ := h.unknown name hname
    obtain ⟨b, -⟩ := hfill
    refine ⟨hfree, hrest, more ++ yieldB b, fun statement => ?_⟩
    obtain ⟨a, ha⟩ := hmore statement
    exact ⟨(a, b), by simp only [ha, List.append_assoc]⟩

theorem snd (h : Blocked yieldB ends read stuck) {a : A}
    (honly : Only yieldA endsA a (read ++ stuck.rest))
    (hfollow : ∀ b rest, ends (next rest) → endsA (next (yieldB b ++ rest))) :
    Blocked (fun d : A × B => yieldA d.1 ++ yieldB d.2) ends (yieldA a ++ read) stuck where
  viable := by
    obtain ⟨b, more, hmore, hb⟩ := h.viable
    exact ⟨(a, b), more, hmore, by rw [hb, List.append_assoc]⟩
  dead after hseen d rest hends heq := by
    rw [List.append_assoc, List.append_assoc] at heq
    obtain ⟨-, hrest⟩ := honly _ (hseen.head?_append read) d.1 _ (hfollow d.2 rest hends) heq
    exact h.dead after hseen d.2 rest hends hrest
  unknown name hname := by
    obtain ⟨hfree, hrest, more, hmore⟩ := h.unknown name hname
    refine ⟨hfree, hrest, more, fun statement => ?_⟩
    obtain ⟨b, hb⟩ := hmore statement
    exact ⟨(a, b), by simp only [hb, List.append_assoc]⟩

end Blocked

end

end FileChores.Grammar
