import FileChores.Program.Source
import FileChores.Proofs.Grammar.Descent.Statement

/-!
# The parser and the grammar agree

A list of lexemes is read as a program exactly when it is the yield of a derivation, and then the
program is the tree of that derivation, which is the only one.
-/

namespace FileChores.Grammar

def atEnd (token : Option Token) : Prop := token = none

theorem eq_nil_of_atEnd {rest : List Lexeme} (h : atEnd (next rest)) : rest = [] := by
  cases rest with
  | nil => rfl
  | cons x rest => cases h

/-- Reading a whole script leaves nothing, or is blocked. -/
theorem readsScript (input : List Lexeme) :
    Reading Block.yield Block.program atEnd input
      ((Program.parse input).map fun program => (program, [])) := by
  have hblock := readsBlock .script input
  unfold Program.parse
  cases hparse : Statement.parseBlock .script input with
  | error stuck =>
      rw [ReadsBlock, hparse] at hblock
      obtain ⟨read, hread, hblocked⟩ := hblock
      refine ⟨read, hread, hblocked.of_rule id (fun _ => rfl) ?_⟩
      exact fun d _ _ _ => ⟨⟨d, rfl⟩, trivial⟩
  | ok body =>
      rw [ReadsBlock, hparse] at hblock
      obtain ⟨d, htrees, hyield, honly⟩ := hblock
      cases hrest : body.rest with
      | nil =>
          rw [hrest] at hyield honly
          simp only [bind, Except.bind, hrest]
          refine ⟨d, congrArg Program.mk htrees, hyield, ?_⟩
          exact fun after hafter d' rest _ h => honly after hafter d' rest trivial h
      | cons x rest =>
          rw [hrest] at hyield honly
          simp only [bind, Except.bind, hrest]
          refine ⟨d.yield, hyield, ⟨d, [], by simp, (List.append_nil _).symm⟩, ?_, ?_⟩
          · intro after hseen d' s hs h
            obtain rfl := eq_nil_of_atEnd hs
            obtain ⟨-, rfl⟩ := honly after hseen.head? d' [] trivial h
            cases hseen.head?
          · intro name hname
            cases hname

theorem parse_eq_ok_iff {input : List Lexeme} {program : Program} :
    Program.parse input = .ok program ↔ ∃ d : Block, d.yield = input ∧ d.program = program := by
  constructor
  · intro h
    have hreads := readsScript input
    rw [h] at hreads
    obtain ⟨d, htree, hyield, -⟩ := hreads
    exact ⟨d, by rw [← hyield, List.append_nil], htree⟩
  · rintro ⟨d, rfl, rfl⟩
    have hread := (readsScript (d.yield ++ [])).eq_ok rfl
    rw [List.append_nil] at hread
    cases hparse : Program.parse d.yield with
    | error stuck =>
        rw [hparse] at hread
        cases hread
    | ok program =>
        rw [hparse] at hread
        cases hread
        rfl

theorem Block.yield_injective {a b : Block} (h : a.yield = b.yield) : a = b := by
  have hreads := readsScript a.yield
  rw [parse_eq_ok_iff.2 ⟨a, rfl, rfl⟩] at hreads
  obtain ⟨d, -, hyield, honly⟩ := hreads
  have ha : a = d := (honly [] rfl a [] rfl (by rw [List.append_nil, hyield])).1
  have hb : b = d := (honly [] rfl b [] rfl (by rw [List.append_nil, ← h, hyield])).1
  rw [ha, hb]

end FileChores.Grammar

namespace FileChores.Program

open Grammar

theorem ofLexemes_eq_ok_iff {lexemes : Lexemes} {program : Program} :
    (ofLexemes lexemes).1 = .ok program ↔
      ∃ d : Grammar.Block, d.yield = lexemes.list ∧ d.program = program := by
  rw [← parse_eq_ok_iff, ofLexemes]
  cases parse lexemes.list with
  | ok value => simp
  | error stuck => simp

theorem ofSource_eq_ok_iff_ofLexemes {source : String} {program : Program} :
    ofSource source = .ok program ↔ ∃ lexemes, Lexemes.ofSource source = .ok lexemes ∧
      (ofLexemes lexemes).1 = .ok program := by
  unfold ofSource
  cases Lexemes.ofSource source with
  | error e => simp
  | ok lexemes =>
      simp only [Except.ok.injEq, exists_eq_left']
      cases (ofLexemes lexemes).1 with
      | error problem => exact ⟨nofun, nofun⟩
      | ok result =>
          change Except.ok result = Except.ok program ↔ _
          rw [Except.ok.injEq, Except.ok.injEq]

theorem ofSource_eq_ok_iff {source : String} {program : Program} :
    ofSource source = .ok program ↔ ∃ lexemes, Lexemes.ofSource source = .ok lexemes ∧
      ∃ d : Grammar.Block, d.yield = lexemes.list ∧ d.program = program := by
  simp only [ofSource_eq_ok_iff_ofLexemes, ofLexemes_eq_ok_iff]

/-- The parser accepts exactly the words of the grammar, and a word has one derivation only, whose
tree is the program. -/
theorem ofLexemes_iff_derivation :
    (∀ (lexemes : Lexemes) (program : Program), (ofLexemes lexemes).1 = .ok program ↔
      ∃ d : Grammar.Block, d.yield = lexemes.list ∧ d.program = program) ∧
    ∀ a b : Grammar.Block, a.yield = b.yield → a = b :=
  ⟨fun _ _ => ofLexemes_eq_ok_iff, fun _ _ => Block.yield_injective⟩

end FileChores.Program
