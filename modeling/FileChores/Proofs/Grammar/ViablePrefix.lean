import FileChores.Program.Source
import FileChores.Proofs.Grammar.Relocation
import FileChores.Proofs.Grammar.Script
import FileChores.Proofs.Writing

/-!
# Where an error of the grammar is

Reading stops at the first token that no accepted script has in that place: what stands in front of
it is the beginning of an accepted script, and with it nothing accepted begins so. The one
exception is a word that is no command: it could be assigned to, and is wrong only together with
the parenthesis behind it.
-/

namespace FileChores.Lexemes

/-- The tokens, and behind them the end of the script. -/
def marked (lexemes : Lexemes) : List (Option Token) :=
  lexemes.tokens.map some ++ [none]

/-- Where the token `k` stands, or where the script ends. -/
def place (lexemes : Lexemes) (k : Nat) : Position :=
  match lexemes.list[k]? with
  | some lexeme => lexeme.pos
  | none => lexemes.finish

theorem take_marked (lexemes : Lexemes) {k : Nat} (hk : k ≤ lexemes.list.length) :
    lexemes.marked.take k = (lexemes.tokens.take k).map some := by
  have hk' : k ≤ (lexemes.tokens.map some).length := by simpa [tokens] using hk
  rw [marked, List.take_append_of_le_length hk', List.map_take]

private theorem take_marked_cases {a b : List Token} {n : Nat}
    (h : (a.map some ++ [none]).take n <+: b.map some ++ [none]) :
    n ≤ a.length ∧ a.take n = b.take n ∨ a.length < n ∧ a = b := by
  induction a generalizing b n with
  | nil =>
      cases n with
      | zero => exact .inl ⟨Nat.le_refl 0, rfl⟩
      | succ n =>
          cases b with
          | nil => exact .inr ⟨Nat.succ_pos n, rfl⟩
          | cons y b => simp at h
  | cons x a ih =>
      cases n with
      | zero => exact .inl ⟨Nat.zero_le _, rfl⟩
      | succ n =>
          cases b with
          | nil => simp at h
          | cons y b =>
              simp only [List.map_cons, List.cons_append, List.take_succ_cons,
                List.cons_prefix_cons, Option.some.injEq] at h
              obtain ⟨rfl, h⟩ := h
              simp only [List.length_cons, List.take_succ_cons, List.cons.injEq, true_and,
                Nat.add_le_add_iff_right, Nat.add_lt_add_iff_right]
              exact ih h

/-- What begins with the front of a script shares its tokens, all of them when its end is seen. -/
theorem of_take_marked_prefix {lexemes other : Lexemes} {n : Nat}
    (h : lexemes.marked.take n <+: other.marked) :
    n ≤ lexemes.list.length ∧ lexemes.tokens.take n = other.tokens.take n ∨
      lexemes.list.length < n ∧ lexemes.tokens = other.tokens := by
  have := take_marked_cases h
  rwa [tokens, List.length_map] at this

/-- What was cut off the front of a script can be continued by other tokens. -/
theorem exists_ofSource_front {source : String} {lexemes : Lexemes}
    (h : ofSource source = .ok lexemes) {k : Nat} (hk : k ≤ lexemes.list.length)
    {more : List Token} (hmore : ∀ token ∈ more, token.ReadsBack) :
    ∃ script other, ofSource script = .ok other ∧ other.tokens = lexemes.tokens.take k ++ more := by
  obtain ⟨front, -, hfront⟩ := scan_front h hk
  obtain ⟨later, hlater, rfl⟩ := scan_flatMap hmore (Position.start.after front)
  refine ⟨.ofList (front ++ later.tokens.flatMap fun token => ' ' :: token.written.toList),
    behind (lexemes.list.take k) later, ?_, ?_⟩
  · rw [ofSource, String.toList_ofList, hfront _ (Token.parted_flatMap _), hlater]
    rfl
  · rw [tokens, behind, List.map_append, List.map_take]
    rfl

end FileChores.Lexemes

namespace FileChores.Grammar

theorem Filler.readsBack {x : Lexeme} (h : Filler x) : x.token.ReadsBack := by
  simp only [Filler, List.mem_cons, List.not_mem_nil, or_false] at h
  rcases h with h | h | h | h | h | h | h | h <;> rw [h]
  · have hzero : (Number.text 0).toList = ['0'] := by decide
    exact Token.readsBack_number hzero (by decide) rfl
  · exact Token.readsBack_word ⟨⟨'x', [], rfl, by decide, rfl⟩, by decide⟩
  all_goals exact Token.readsBack_of_isFixed rfl

end FileChores.Grammar

namespace FileChores.Program

open Grammar

def Accepts (lexemes : Lexemes) : Prop :=
  ∃ program, (ofLexemes lexemes).1 = .ok program

/-- Some accepted script begins like this. -/
def Viable (front : List (Option Token)) : Prop :=
  ∃ script lexemes, Lexemes.ofSource script = .ok lexemes ∧ Accepts lexemes ∧
    front <+: lexemes.marked

/-- No accepted script begins like this, not even one whose lexemes nobody could write. -/
def Dead (front : List (Option Token)) : Prop :=
  ∀ lexemes, Accepts lexemes → ¬ front <+: lexemes.marked

def TakesStatement (front : List (Option Token)) : Prop :=
  ∀ statement : Grammar.Statement, ∃ lexemes, Accepts lexemes ∧
    front ++ statement.yield.map (fun x => some x.token) <+: lexemes.marked

theorem accepts_iff {lexemes : Lexemes} :
    Accepts lexemes ↔ ∃ d : Grammar.Block, d.yield = lexemes.list := by
  constructor
  · rintro ⟨program, h⟩
    obtain ⟨d, hd, -⟩ := ofLexemes_eq_ok_iff.1 h
    exact ⟨d, hd⟩
  · rintro ⟨d, hd⟩
    exact ⟨d.program, ofLexemes_eq_ok_iff.2 ⟨d, hd, rfl⟩⟩

theorem accepts_of_tokens {lexemes : Lexemes} {d : Grammar.Block}
    (h : lexemes.tokens = d.yield.map (·.token)) : Accepts lexemes := by
  obtain ⟨d', hd', -⟩ := d.relocate lexemes.list h
  exact accepts_iff.2 ⟨d', hd'⟩

section

variable {lexemes : Lexemes} {read : List Lexeme} {stuck : Stuck}

theorem viable_of_blocked {source : String} (hsource : Lexemes.ofSource source = .ok lexemes)
    (hread : read ++ stuck.rest = lexemes.list) (h : Blocked Block.yield atEnd read stuck) :
    Viable (lexemes.marked.take read.length) := by
  obtain ⟨d, more, hmore, hd⟩ := h.viable
  have hfill : ∀ token ∈ more.map (·.token), token.ReadsBack := by
    intro token htoken
    obtain ⟨x, hx, rfl⟩ := List.mem_map.1 htoken
    exact (hmore x hx).readsBack
  have hlength : read.length ≤ lexemes.list.length := by
    rw [← hread, List.length_append]
    omega
  have hfront : lexemes.tokens.take read.length = read.map (·.token) := by
    rw [Lexemes.tokens, ← hread, ← List.map_take, List.take_left]
  obtain ⟨script, other, hscript, hother⟩ :=
    Lexemes.exists_ofSource_front hsource hlength hfill
  rw [hfront] at hother
  refine ⟨script, other, hscript, accepts_of_tokens (d := d) ?_, ?_⟩
  · rw [hother, hd, List.map_append]
  · rw [lexemes.take_marked hlength, hfront, Lexemes.marked, hother, List.map_append,
      List.append_assoc]
    exact List.prefix_append _ _

theorem dead_of_blocked (hread : read ++ stuck.rest = lexemes.list)
    (h : Blocked Block.yield atEnd read stuck) :
    Dead (lexemes.marked.take (read.length + stuck.problem.lookahead)) := by
  intro other hother hprefix
  obtain ⟨d, hd⟩ := accepts_iff.1 hother
  -- The accepted lexemes, with those in front of them moved to where they were read.
  let after := stuck.rest.take stuck.problem.lookahead ++
    other.list.drop (read.length + stuck.problem.lookahead)
  have hlength : lexemes.list.length = read.length + stuck.rest.length := by
    rw [← hread, List.length_append]
  have hfront : read ++ stuck.rest.take stuck.problem.lookahead =
      lexemes.list.take (read.length + stuck.problem.lookahead) := by
    rw [← hread, List.take_length_add_append]
  have hmoved : SameTokens (read ++ after) other.list ∧ SeenAgain stuck after := by
    rw [← List.append_assoc, hfront, SameTokens, List.map_append, List.map_take, List.map_drop]
    rcases Lexemes.of_take_marked_prefix hprefix with ⟨hle, htokens⟩ | ⟨hlt, htokens⟩
    · constructor
      · exact htokens ▸ List.take_append_drop _ _
      · exact List.take_left' (by rw [List.length_take]; omega)
    · have hother : other.list.length = lexemes.list.length := by
        simpa [Lexemes.tokens] using congrArg List.length htokens.symm
      have hnone : other.list.drop (read.length + stuck.problem.lookahead) = [] :=
        List.drop_eq_nil_of_le (by omega)
      constructor
      · rw [← List.map_drop, hnone, List.map_nil, List.append_nil]
        exact (List.take_of_length_le (by rw [List.length_map]; omega)).trans htokens
      · rw [SeenAgain, show after = stuck.rest.take _ ++ _ from rfl, hnone, List.append_nil,
          List.take_take, Nat.min_self]
  obtain ⟨d', hd', -⟩ := d.relocate (read ++ after) (hd ▸ hmoved.1)
  exact h.dead after hmoved.2 d' [] rfl (by rw [List.append_nil, hd'])

/-- Where an unknown command stands, any statement may stand. -/
theorem takesStatement_of_blocked {name : String} (hread : read ++ stuck.rest = lexemes.list)
    (h : Blocked Block.yield atEnd read stuck) (hname : stuck.problem = .unknownCommand name) :
    TakesStatement (lexemes.marked.take read.length) := by
  obtain ⟨-, -, more, hmore⟩ := h.unknown name hname
  intro statement
  obtain ⟨d, hd⟩ := hmore statement
  refine ⟨⟨d.yield, lexemes.finish⟩, accepts_iff.2 ⟨d, rfl⟩, ?_⟩
  have hlength : read.length ≤ lexemes.list.length := by
    rw [← hread, List.length_append]
    omega
  have hfront : lexemes.tokens.take read.length = read.map (·.token) := by
    rw [Lexemes.tokens, ← hread, ← List.map_take, List.take_left]
  rw [lexemes.take_marked hlength, hfront, Lexemes.marked, Lexemes.tokens, hd]
  simp only [List.map_append, List.map_map, List.append_assoc]
  exact List.prefix_append_right_inj _ |>.2 (List.prefix_append _ _)

theorem place_eq (hread : read ++ stuck.rest = lexemes.list) :
    (stuck.error lexemes.finish).pos = lexemes.place read.length := by
  rw [Lexemes.place, ← hread, List.getElem?_append_right (Nat.le_refl _), Nat.sub_self, Stuck.error]
  cases stuck.rest <;> rfl

end

/-- Reading fails at the first wrong token `k`, and leaves everything from there on. -/
theorem ofLexemes_error_first_wrong {source : String} {lexemes left : Lexemes} {e : ParseError}
    (hsource : Lexemes.ofSource source = .ok lexemes)
    (h : ofLexemes lexemes = (.error e, left)) :
    ∃ k ≤ lexemes.list.length, e.pos = lexemes.place k ∧
      left = { lexemes with list := lexemes.list.drop k } ∧
      Viable (lexemes.marked.take k) ∧
      (Dead (lexemes.marked.take (k + 1)) ∨
        ∃ name, e.detail = s!"Unknown command '{name}'" ∧
          lexemes.marked[k]? = some (some (.word name)) ∧
          TakesStatement (lexemes.marked.take k) ∧
          (∀ command : Command, command.name ≠ name) ∧
          lexemes.marked[k + 1]? = some (some .openParen) ∧
          Dead (lexemes.marked.take (k + 2))) := by
  have hreads := readsScript lexemes.list
  rw [ofLexemes] at h
  cases hparse : parse lexemes.list with
  | ok program => rw [hparse] at h; cases h
  | error stuck =>
      rw [hparse] at h hreads
      cases h
      obtain ⟨read, hread, hblocked⟩ := hreads
      have hlength : read.length ≤ lexemes.list.length := by
        rw [← hread, List.length_append]
        omega
      have hrest : stuck.rest = lexemes.list.drop read.length := by
        rw [← hread, List.drop_left]
      have hdead := dead_of_blocked hread hblocked
      refine ⟨read.length, hlength, place_eq hread, by rw [hrest],
        viable_of_blocked hsource hread hblocked, ?_⟩
      cases hproblem : stuck.problem with
      | unknownCommand name =>
          right
          obtain ⟨hfree, ⟨pos, paren, after, hstuck⟩, -⟩ := hblocked.unknown name hproblem
          rw [hproblem] at hdead
          have hmarked : lexemes.marked = (read.map fun x => some x.token) ++
              some (.word name) :: some .openParen ::
                (after.map fun x => some x.token) ++ [none] := by
            simp only [Lexemes.marked, Lexemes.tokens, ← hread, hstuck, List.map_append,
              List.map_cons, List.map_map, List.append_assoc, List.cons_append]
            rfl
          refine ⟨name, ?_, ?_, takesStatement_of_blocked hread hblocked hproblem, hfree, ?_, hdead⟩
          · rw [ParseError.detail, Stuck.error, hstuck, hproblem]
            rfl
          · simp [hmarked]
          · simp [hmarked]
      | _ =>
          left
          rw [hproblem] at hdead
          exact hdead

/-- A word in front of a parenthesis, where a statement begins. -/
theorem ofLexemes_error_first_wrong_sort :
    ∃ lexemes left e, Lexemes.ofSource "\x7b Sort (" = .ok lexemes ∧
      ofLexemes lexemes = (.error e, left) ∧ e.detail = "Unknown command 'Sort'" ∧
      ∃ k ≤ lexemes.list.length, e.pos = lexemes.place k ∧ Viable (lexemes.marked.take k) := by
  have hword : Lexeme.cut 'S' ['o', 'r', 't', ' ', '('] =
      .ok ⟨.word "Sort", ['S', 'o', 'r', 't'], [' ', '(']⟩ := rfl
  have hsource : Lexemes.ofSource "\x7b Sort (" =
      .ok ⟨[⟨.openBrace, ⟨1, 1⟩⟩, ⟨.word "Sort", ⟨1, 3⟩⟩, ⟨.openParen, ⟨1, 8⟩⟩], ⟨1, 9⟩⟩ := by
    change Lexemes.scan .start ['\x7b', ' ', 'S', 'o', 'r', 't', ' ', '('] = _
    rw [Lexemes.scan_cut (by decide) rfl, Lexemes.scan_skipped rfl,
      Lexemes.scan_cut (by decide) hword, Lexemes.scan_skipped rfl,
      Lexemes.scan_cut (by decide) rfl, Lexemes.scan]
    rfl
  have hcommand : Command.ofName? "Sort" = none := by decide
  have hread : ofLexemes ⟨[⟨.openBrace, ⟨1, 1⟩⟩, ⟨.word "Sort", ⟨1, 3⟩⟩, ⟨.openParen, ⟨1, 8⟩⟩],
      ⟨1, 9⟩⟩ = (.error ⟨.unknownCommand "Sort", some (.word "Sort"), ⟨1, 3⟩⟩,
        ⟨[⟨.word "Sort", ⟨1, 3⟩⟩, ⟨.openParen, ⟨1, 8⟩⟩], ⟨1, 9⟩⟩) := by
    rw [ofLexemes, parse, Statement.parseBlock, Statement.parseBody, Statement.parse, hcommand]
    · rfl
    · intro pos h
      cases h
  obtain ⟨k, hk, hpos, -, hviable, -⟩ := ofLexemes_error_first_wrong hsource hread
  exact ⟨_, _, _, hsource, hread, rfl, k, hk, hpos, hviable⟩

end FileChores.Program
