import FileChores.Proofs.Grammar.Cursor.Descent
import FileChores.Proofs.Grammar.Script

/-!
# Reading the same lexemes again

A reading starts at the place where the one before it has stopped, whether that has come to a
program or not. Over lexemes that are one program behind another each reading but the last stops at
the next program; in front of anything but a block all readings stop where they are.
-/

namespace FileChores

namespace Program

variable {input block rest : List Lexeme} {program : Program}

open Grammar in
theorem parse_other (hbrace : ∀ pos rest, input ≠ ⟨.openBrace, pos⟩ :: rest) :
    parse input = .error ⟨.openBrace .script, input⟩ := by
  have h := parse_eq_whole input
  rw [outcome_parseBlock_other hbrace .script] at h
  cases hparse : parse input <;> rw [hparse] at h <;> cases h
  rfl

theorem exists_openBrace_of_parse (h : parse input = .ok program) :
    ∃ pos rest, input = ⟨.openBrace, pos⟩ :: rest := by
  obtain ⟨⟨opening, body⟩, rfl, -⟩ := Grammar.parse_eq_ok_iff.1 h
  exact ⟨opening, body.yield, rfl⟩

open Grammar in
theorem parse_append (h : parse block = .ok program) (hrest : rest ≠ []) :
    parse (block ++ rest) = .error ⟨.endOfScript, rest⟩ := by
  obtain ⟨d, rfl, -⟩ := parse_eq_ok_iff.1 h
  have hwhole := parse_eq_whole (d.yield ++ rest)
  rw [(readsBlock .script (d.yield ++ rest)).eq_ok trivial] at hwhole
  cases rest with
  | nil => exact absurd rfl hrest
  | cons x rest =>
      cases hparse : parse (d.yield ++ x :: rest) <;> rw [hparse] at hwhole <;> cases hwhole
      rfl

end Program

namespace Lexemes

variable {lexemes : Lexemes} {n : Nat}

def left (lexemes : Lexemes) : Nat → Lexemes
  | 0 => lexemes
  | n + 1 => (Program.ofLexemes (lexemes.left n)).2

def answer (lexemes : Lexemes) (n : Nat) : Except ParseError Program :=
  (Program.ofLexemes (lexemes.left n)).1

/-- The place at which the reading behind `n` others starts. -/
def start (lexemes : Lexemes) (n : Nat) : Nat :=
  lexemes.list.length - (lexemes.left n).list.length

theorem finish_left (lexemes : Lexemes) (n : Nat) : (lexemes.left n).finish = lexemes.finish := by
  induction n with
  | zero => rfl
  | succ n ih =>
      rw [left, Program.ofLexemes, ← ih]
      split <;> rfl

theorem left_of_error {problem : ParseProblem} {rest : List Lexeme}
    (h : Program.parse (lexemes.left n).list = .error ⟨problem, rest⟩) :
    lexemes.left (n + 1) = ⟨rest, lexemes.finish⟩ ∧
      lexemes.answer n =
        .error ⟨problem, (front rest lexemes.finish).1, (front rest lexemes.finish).2⟩ := by
  rw [left, answer, Program.ofLexemes, h, ← finish_left lexemes n, ← Stuck.error_eq]
  exact ⟨rfl, rfl⟩

/-! ## Places -/

/-- One reading, from the place at which what earlier ones have left begins. -/
theorem reading_step (hat : Cursor.At lexemes (lexemes.start n) (lexemes.left n).list) :
    Cursor.At lexemes (lexemes.start (n + 1)) (lexemes.left (n + 1)).list ∧
      lexemes.start n ≤ lexemes.start (n + 1) ∧
      Cursor.result Cursor.program lexemes (lexemes.start n) =
        some ((lexemes.answer n).mapError .wrong, lexemes.start (n + 1)) := by
  have hleft : { lexemes with list := (lexemes.left n).list } = lexemes.left n := by
    rw [← finish_left lexemes n]
  have hread : Program.ofLexemes { lexemes with list := (lexemes.left n).list } =
      (lexemes.answer n, lexemes.left (n + 1)) := by
    rw [hleft]
    rfl
  obtain ⟨next, hle, hnext, hresult⟩ := Cursor.result_program hat hread
  obtain rfl : next = lexemes.start (n + 1) := hnext.place_eq
  exact ⟨hnext, hle, hresult⟩

theorem at_start (lexemes : Lexemes) (n : Nat) :
    Cursor.At lexemes (lexemes.start n) (lexemes.left n).list := by
  induction n with
  | zero => exact ⟨Nat.sub_le _ _, by simp [start, left]⟩
  | succ n ih => exact (reading_step ih).1

/-! ## In front of anything but a block -/

theorem left_add_of_other (hbrace : ∀ pos rest, (lexemes.left n).list ≠ ⟨.openBrace, pos⟩ :: rest)
    (k : Nat) : lexemes.left (n + k) = lexemes.left n := by
  induction k with
  | zero => rfl
  | succ k ih =>
      rw [← ih] at hbrace
      rw [← Nat.add_assoc, (left_of_error (Program.parse_other hbrace)).1,
        ← finish_left lexemes (n + k)]
      exact ih

/-- A reading that finds no opening brace is the answer of every later one too. -/
theorem answer_of_other {found : Option Token} {pos : Position}
    (hslot : lexemes.slots[lexemes.start n]? = some (found, pos)) (hfound : found ≠ some .openBrace)
    {k : Nat} (hk : n ≤ k) :
    lexemes.start k = lexemes.start n ∧
      lexemes.answer k = .error ⟨.openBrace .script, found, pos⟩ := by
  obtain ⟨k, rfl⟩ := Nat.exists_eq_add_of_le hk
  have hfront : front (lexemes.left n).list lexemes.finish = (found, pos) :=
    Option.some.inj ((at_start lexemes n).slot.symm.trans hslot)
  have hbrace (pos : Position) (rest : List Lexeme) :
      (lexemes.left n).list ≠ ⟨.openBrace, pos⟩ :: rest := by
    intro hlist
    rw [hlist] at hfront
    exact hfound (congrArg Prod.fst hfront).symm
  have hanswer := (left_of_error (Program.parse_other hbrace)).2
  rw [hfront] at hanswer
  have hleft := left_add_of_other hbrace k
  exact ⟨by rw [start, hleft, start], by rw [answer, hleft]; exact hanswer⟩

/-! ## One program behind another -/

section

variable {blocks : List (List Lexeme)} {last : List Lexeme} {program : Program}
  (hblocks : ∀ block ∈ blocks, ∃ program, Program.parse block = .ok program)
  (hlast : Program.parse last = .ok program)

include hblocks hlast

theorem exists_openBrace_of_blocks (k : Nat) :
    ∃ pos rest, (blocks.drop k).flatten ++ last = ⟨.openBrace, pos⟩ :: rest := by
  cases hdrop : blocks.drop k with
  | nil => exact Program.exists_openBrace_of_parse hlast
  | cons block more =>
      have hmem : block ∈ blocks := List.mem_of_mem_drop (by rw [hdrop]; exact List.mem_cons_self)
      obtain ⟨_, hblock⟩ := hblocks block hmem
      obtain ⟨pos, rest, rfl⟩ := Program.exists_openBrace_of_parse hblock
      exact ⟨pos, rest ++ more.flatten ++ last, by simp⟩

theorem parse_blocks {k : Nat} (hk : k < blocks.length) :
    Program.parse ((blocks.drop k).flatten ++ last) =
      .error ⟨.endOfScript, (blocks.drop (k + 1)).flatten ++ last⟩ := by
  obtain ⟨_, hblock⟩ := hblocks blocks[k] (List.getElem_mem hk)
  obtain ⟨pos, rest, hrest⟩ := exists_openBrace_of_blocks hblocks hlast (k + 1)
  rw [List.drop_eq_getElem_cons hk, List.flatten_cons, List.append_assoc]
  exact Program.parse_append hblock (by rw [hrest]; exact List.cons_ne_nil _ _)

variable (hlist : lexemes.list = blocks.flatten ++ last)

include hlist

theorem left_of_blocks {k : Nat} (hk : k ≤ blocks.length) :
    (lexemes.left k).list = (blocks.drop k).flatten ++ last := by
  induction k with
  | zero => exact hlist
  | succ k ih =>
      have hparse := parse_blocks hblocks hlast hk
      rw [← ih (Nat.le_of_succ_le hk)] at hparse
      rw [(left_of_error hparse).1]

theorem start_of_blocks {k : Nat} (hk : k ≤ blocks.length) :
    lexemes.start k = (blocks.take k).flatten.length := by
  have hwhole : blocks.flatten = (blocks.take k).flatten ++ (blocks.drop k).flatten := by
    rw [← List.flatten_append, List.take_append_drop]
  rw [start, left_of_blocks hblocks hlast hlist hk, hlist, hwhole]
  simp only [List.length_append]
  omega

theorem answer_of_block {k : Nat} (hk : k < blocks.length) :
    ∃ pos, lexemes.answer k = .error ⟨.endOfScript, some .openBrace, pos⟩ ∧
      lexemes.slots[lexemes.start (k + 1)]? = some (some .openBrace, pos) := by
  have hparse := parse_blocks hblocks hlast hk
  obtain ⟨pos, rest, hrest⟩ := exists_openBrace_of_blocks hblocks hlast (k + 1)
  rw [← left_of_blocks hblocks hlast hlist (Nat.le_of_lt hk), hrest] at hparse
  obtain ⟨hleft, hanswer⟩ := left_of_error hparse
  have hslot := (at_start lexemes (k + 1)).slot
  rw [hleft] at hslot
  exact ⟨pos, hanswer, hslot⟩

theorem answer_of_last : lexemes.answer blocks.length = .ok program ∧
    lexemes.start (blocks.length + 1) = lexemes.list.length := by
  have hleft := left_of_blocks hblocks hlast hlist (Nat.le_refl blocks.length)
  rw [List.drop_length] at hleft
  change (lexemes.left blocks.length).list = last at hleft
  rw [answer, start, left, Program.ofLexemes, hleft, hlast]
  exact ⟨rfl, rfl⟩

theorem answer_behind_last {k : Nat} (hk : blocks.length < k) :
    lexemes.start k = lexemes.list.length ∧
      lexemes.answer k = .error ⟨.openBrace .script, none, lexemes.finish⟩ := by
  have hstart := (answer_of_last hblocks hlast hlist).2
  have hslot : lexemes.slots[lexemes.start (blocks.length + 1)]? = some (none, lexemes.finish) := by
    rw [hstart]
    simp [slots]
  rw [← hstart]
  exact answer_of_other hslot (by rintro ⟨⟩) hk

end

/-- Readings of the same lexemes one behind another start at places that never go back and never
pass the end of the file, and read nothing that is not there. Over blocks that are programs each
reading but the last stops at the next block, the last one gives the last program, and every later
one finds the end of the file. A reading that finds no opening brace is repeated for ever. -/
theorem read_again (lexemes : Lexemes) :
    (lexemes.start 0 = 0 ∧
      ∀ n, lexemes.start n ≤ lexemes.start (n + 1) ∧
        lexemes.start (n + 1) ≤ lexemes.list.length ∧
        Cursor.result Cursor.program lexemes (lexemes.start n) =
          some ((lexemes.answer n).mapError .wrong, lexemes.start (n + 1))) ∧
    (∀ (blocks : List (List Lexeme)) (last : List Lexeme) (program : Program),
      lexemes.list = blocks.flatten ++ last →
      (∀ block ∈ blocks, ∃ program, Program.parse block = .ok program) →
      Program.parse last = .ok program →
        (∀ k < blocks.length, ∃ e, lexemes.answer k = .error e ∧
          e.detail = "Unexpected '\x7b' after end of script block" ∧
          lexemes.start (k + 1) = (blocks.take (k + 1)).flatten.length ∧
          lexemes.slots[lexemes.start (k + 1)]? = some (some .openBrace, e.pos)) ∧
        lexemes.answer blocks.length = .ok program ∧
        ∀ k > blocks.length, lexemes.start k = lexemes.list.length ∧
          ∃ e, lexemes.answer k = .error e ∧
            e.detail = "Expected '\x7b' at start of script, found end of file" ∧
            e.pos = lexemes.finish) ∧
    ∀ n found pos, lexemes.slots[lexemes.start n]? = some (found, pos) → found ≠ some .openBrace →
      ∀ k ≥ n, lexemes.start k = lexemes.start n ∧
        lexemes.answer k = .error ⟨.openBrace .script, found, pos⟩ := by
  refine ⟨⟨Nat.sub_self _, fun n => ?_⟩, fun blocks last program hlist hblocks hlast => ?_,
    fun n found pos hslot hfound k hk => answer_of_other hslot hfound hk⟩
  · obtain ⟨-, hle, hresult⟩ := reading_step (at_start lexemes n)
    exact ⟨hle, Nat.sub_le _ _, hresult⟩
  · refine ⟨fun k hk => ?_, (answer_of_last hblocks hlast hlist).1, fun k hk => ?_⟩
    · obtain ⟨pos, hanswer, hslot⟩ := answer_of_block hblocks hlast hlist hk
      exact ⟨_, hanswer, rfl, start_of_blocks hblocks hlast hlist hk, hslot⟩
    · obtain ⟨hstart, hanswer⟩ := answer_behind_last hblocks hlast hlist hk
      exact ⟨hstart, _, hanswer, rfl, rfl⟩

def twoBlocks : Lexemes :=
  { list := [⟨.openBrace, ⟨1, 1⟩⟩, ⟨.closeBrace, ⟨1, 2⟩⟩, ⟨.openBrace, ⟨1, 3⟩⟩,
      ⟨.closeBrace, ⟨1, 4⟩⟩]
    finish := ⟨1, 5⟩ }

theorem read_again_two_blocks :
    ofSource "\x7b\x7d\x7b\x7d" = .ok twoBlocks ∧
      (∃ e, twoBlocks.answer 0 = .error e ∧
        e.detail = "Unexpected '\x7b' after end of script block" ∧ e.pos = ⟨1, 3⟩) ∧
      twoBlocks.answer 1 = .ok ⟨[]⟩ ∧
      ∀ k > 1, twoBlocks.start k = 4 ∧ ∃ e, twoBlocks.answer k = .error e ∧
        e.detail = "Expected '\x7b' at start of script, found end of file" ∧ e.pos = ⟨1, 5⟩ := by
  have hblock (opening closing : Position) :
      Program.parse [⟨.openBrace, opening⟩, ⟨.closeBrace, closing⟩] = .ok ⟨[]⟩ :=
    Grammar.parse_eq_ok_iff.2 ⟨.mk opening (.close closing), rfl, rfl⟩
  obtain ⟨hfirst, hsecond, hlater⟩ := (read_again twoBlocks).2.1
    [[⟨.openBrace, ⟨1, 1⟩⟩, ⟨.closeBrace, ⟨1, 2⟩⟩]] [⟨.openBrace, ⟨1, 3⟩⟩, ⟨.closeBrace, ⟨1, 4⟩⟩]
    ⟨[]⟩ rfl (fun block hmem => ⟨⟨[]⟩, by rw [List.mem_singleton.1 hmem, hblock]⟩) (hblock _ _)
  obtain ⟨e, hanswer, hdetail, hstart, hslot⟩ := hfirst 0 Nat.zero_lt_one
  rw [hstart] at hslot
  have hpos : (⟨1, 3⟩ : Position) = e.pos := congrArg Prod.snd (Option.some.inj hslot)
  exact ⟨by cbv, ⟨e, hanswer, hdetail, hpos.symm⟩, hsecond, hlater⟩

end Lexemes

end FileChores
