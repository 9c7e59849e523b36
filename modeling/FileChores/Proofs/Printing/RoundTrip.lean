import FileChores.Proofs.Grammar.Relocation
import FileChores.Proofs.Grammar.Script
import FileChores.Proofs.Printing.WellFormed

/-!
# Printing and reading again

A well-formed program is read back from what it is printed as, and every program that is read from a
script is well-formed.
-/

namespace FileChores.Program

theorem ofSource_print {program : Program} (h : program.WellFormed) :
    ∃ read, ofSource program.print = .ok read ∧ read.unplaced = program.unplaced := by
  have hback : ∀ token ∈ program.tokens, token.ReadsBack :=
    fun token hmem => (sound_tokens h token hmem).readsBack
  obtain ⟨lexemes, hlexemes, htokens⟩ := Lexemes.ofSource_spaced hback
  obtain ⟨d, hyield, htree⟩ := Grammar.derivesProgram h
  obtain ⟨d', hyield', htree'⟩ := d.relocate lexemes.list (htokens.trans hyield.symm)
  refine ⟨d'.program, ofSource_eq_ok_iff.2 ⟨lexemes, hlexemes, d', hyield', rfl⟩, ?_⟩
  exact (congrArg Program.mk htree').trans htree

theorem wellFormed_of_ofSource {source : String} {lexemes : Lexemes} {program : Program}
    (hlexemes : Lexemes.ofSource source = .ok lexemes) (hrange : lexemes.InRange)
    (h : ofSource source = .ok program) : program.WellFormed := by
  obtain ⟨lexemes', hlexemes', d, hyield, rfl⟩ := ofSource_eq_ok_iff.1 h
  rw [hlexemes] at hlexemes'
  cases hlexemes'
  apply d.wellFormed
  rw [hyield]
  exact Lexemes.sound_of_scan hlexemes hrange

theorem inRange_print {program : Program} (h : program.WellFormed) :
    ∃ lexemes, Lexemes.ofSource program.print = .ok lexemes ∧ lexemes.InRange := by
  have hsound := sound_tokens h
  obtain ⟨lexemes, hlexemes, htokens⟩ :=
    Lexemes.ofSource_spaced fun token hmem => (hsound token hmem).readsBack
  refine ⟨lexemes, hlexemes, fun lexeme hmem value hvalue => ?_⟩
  have hwhole : (Token.number value).Sound := by
    apply hsound
    rw [← htokens, ← hvalue]
    exact List.mem_map_of_mem hmem
  exact Number.IsWhole.isInf_eq_false hwhole

/-- Printing a well-formed program and reading it again changes its positions only, and what is read
from a script without overlong numbers is well-formed. -/
theorem read_print :
    (∀ program : Program, program.WellFormed →
      ∃ read, ofSource program.print = .ok read ∧ read.unplaced = program.unplaced) ∧
    ∀ (source : String) (lexemes : Lexemes) (program : Program),
      Lexemes.ofSource source = .ok lexemes → lexemes.InRange → ofSource source = .ok program →
        program.WellFormed ∧
        ∃ read, ofSource program.print = .ok read ∧ read.unplaced = program.unplaced := by
  refine ⟨fun program h => ofSource_print h, ?_⟩
  intro source lexemes program hlexemes hrange h
  have hwellFormed := wellFormed_of_ofSource hlexemes hrange h
  exact ⟨hwellFormed, ofSource_print hwellFormed⟩

/-- `var n = CountFiles("a\"b") + 2`, counted down. -/
theorem read_print_countdown :
    let program : Program :=
      ⟨[.declare "n" (.binary .add (.query .countFiles [.text "a\"b" .start] .start)
            (.number (Float.ofNat 2) .start) .start) .start,
        .loop ⟨.word "n" .start, .greater, .number (Float.ofNat 0) .start, .start⟩
          [.assign "n" (.binary .sub (.word "n" .start) (.number (Float.ofNat 1) .start) .start)
            .start] .start]⟩
    program.WellFormed ∧ ∃ lexemes read, Lexemes.ofSource program.print = .ok lexemes ∧
      lexemes.InRange ∧ ofSource program.print = .ok read ∧ read.unplaced = program.unplaced ∧
      read.WellFormed := by
  have hname : Token.IsName "n" := ⟨⟨_, _, rfl, by decide, by decide⟩, by decide⟩
  have hfree := Grammar.free_of_ofName?_eq_none (show Command.ofName? "n" = none by decide)
  have hwhole : ∀ n, (Float.ofNat n).isInf = false → Number.IsWhole (Float.ofNat n) := by
    intro n hn
    exact (Number.isInf_or_isWhole_ofNat n).resolve_left (by simp [hn])
  intro program
  have hprogram : program.WellFormed := by
    have hword : (Expr.word "n" .start).WellFormed := ⟨hname, fun command _ => hfree command⟩
    refine ⟨⟨hname, ?_⟩, ⟨⟨hword, hwhole 0 (by decide)⟩, ⟨hname, hfree, ?_⟩, trivial⟩, trivial⟩
    · exact ⟨⟨rfl, trivial, trivial⟩, hwhole 2 (by decide), rfl⟩
    · exact ⟨hword, hwhole 1 (by decide), rfl⟩
  obtain ⟨read, hread, hsame⟩ := read_print.1 program hprogram
  obtain ⟨lexemes, hlexemes, hrange⟩ := inRange_print hprogram
  exact ⟨hprogram, lexemes, read, hlexemes, hrange, hread, hsame,
    (read_print.2 _ lexemes read hlexemes hrange hread).1⟩

end FileChores.Program
