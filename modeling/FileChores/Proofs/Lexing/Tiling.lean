import FileChores.Proofs.Lexing.Longest

/-!
# A script as tiles

A script that is cut into lexemes is a row of tiles, each some white space and the longest lexeme
behind it. A script that is not cut has such tiles up to the character at which no lexeme starts.
-/

namespace FileChores

namespace Position

/-- The position behind a text: one line more than it has line feeds, and one column more than it
has characters behind the last of them. -/
def behind (before : List Char) : Position :=
  ⟨1 + before.count '\n', 1 + (before.reverse.takeWhile (· ≠ '\n')).length⟩

theorem behind_snoc (before : List Char) (c : Char) :
    behind (before ++ [c]) = (behind before).advance c := by
  rw [advance, behind, behind]
  by_cases hc : c = '\n'
  · subst hc
    simp [Nat.add_assoc]
  · simp [hc, Nat.add_comm]

theorem behind_append (before run : List Char) :
    behind (before ++ run) = (behind before).after run := by
  induction run generalizing before with
  | nil => rw [List.append_nil, after_nil]
  | cons c run ih => rw [after_cons, ← behind_snoc, ← ih, List.append_assoc, List.singleton_append]

end Position

structure Tile where
  gap : List Char
  written : List Char
  token : Token

namespace Tile

def spelled (tiles : List Tile) : List Char :=
  tiles.flatMap fun tile => tile.gap ++ tile.written

def lexemes (before : List Char) : List Tile → List Lexeme
  | [] => []
  | tile :: tiles =>
      ⟨tile.token, .behind (before ++ tile.gap)⟩ ::
        lexemes (before ++ tile.gap ++ tile.written) tiles

end Tile

/-- A text starts with the tiles, each of them the longest lexeme where it stands, and goes on with
what is left. -/
inductive Tiled : List Char → List Tile → List Char → Prop
  | nil (left : List Char) : Tiled left [] left
  | cons {gap written rest left : List Char} {token : Token} {tiles : List Tile} :
      gap.all Lexeme.isSkipped = true → Lexeme.Longest (written ++ rest) ⟨token, written, rest⟩ →
      Tiled rest tiles left → Tiled (gap ++ (written ++ rest)) (⟨gap, written, token⟩ :: tiles) left

theorem Tiled.append_eq {cs left : List Char} {tiles : List Tile} (h : Tiled cs tiles left) :
    Tile.spelled tiles ++ left = cs := by
  induction h with
  | nil left => rfl
  | cons _ _ _ ih => simp [← ih, Tile.spelled]

end FileChores

namespace FileChores.Lexemes

open Lexeme

theorem scan_gap {gap : List Char} (hgap : gap.all isSkipped = true) (here : Position)
    (rest : List Char) : scan here (gap ++ rest) = scan (here.after gap) rest := by
  induction gap generalizing here with
  | nil => rfl
  | cons c gap ih =>
      rw [List.all_cons, Bool.and_eq_true] at hgap
      rw [List.cons_append, scan_skipped hgap.1, ih hgap.2, Position.after_cons]

theorem scan_longest {cs : List Char} {piece : Cut} (h : Longest cs piece) (here : Position) :
    scan here cs =
      (scan (here.after piece.written) piece.rest).map (behind [⟨piece.token, here⟩]) := by
  cases cs with
  | nil => exact absurd (List.append_eq_nil_iff.1 h.append_eq).1 h.spells.ne_nil
  | cons c rest =>
      refine scan_cut ?_ (cut_eq_ok_iff.2 h)
      rw [isSkipped_eq_false_of_longest h]
      exact Bool.false_ne_true

theorem scan_tiled {cs left : List Char} {tiles : List Tile} (h : Tiled cs tiles left)
    (before : List Char) :
    scan (.behind before) cs =
      (scan (.behind (before ++ Tile.spelled tiles)) left).map
        (behind (Tile.lexemes before tiles)) := by
  induction h generalizing before with
  | nil left =>
      rw [Tile.lexemes, map_behind_nil, Tile.spelled, List.flatMap_nil, List.append_nil]
  | @cons gap written rest left token tiles hgap hlongest _ ih =>
      rw [scan_gap hgap, scan_longest hlongest, ← Position.behind_append,
        ← Position.behind_append, ih, map_behind]
      simp [Tile.spelled, Tile.lexemes]

def NoLexeme (cs : List Char) : Prop :=
  ∀ run token, Spells run token → ¬ run <+: cs

/-- A text is tiled up to the white space at its end, or up to a character at which no lexeme
starts. -/
theorem exists_tiled (cs : List Char) :
    ∃ tiles gap rest, Tiled cs tiles (gap ++ rest) ∧ gap.all isSkipped = true ∧
      ∀ c ∈ rest.head?, isSkipped c = false ∧ NoLexeme rest := by
  induction hlength : cs.length using Nat.strongRecOn generalizing cs with
  | ind n ih =>
      have hgap : (cs.takeWhile isSkipped).all isSkipped = true := List.all_takeWhile
      have hcs : cs.takeWhile isSkipped ++ cs.dropWhile isSkipped = cs :=
        List.takeWhile_append_dropWhile
      have hhead := head?_dropWhile_eq_false (p := isSkipped) cs
      generalize cs.takeWhile isSkipped = gap at *
      generalize cs.dropWhile isSkipped = rest at *
      cases rest with
      | nil => exact ⟨[], gap, [], hcs ▸ .nil _, hgap, fun _ h => by cases h⟩
      | cons c rest =>
          cases hcut : cut c rest with
          | error problem =>
              refine ⟨[], gap, c :: rest, hcs ▸ .nil _, hgap, fun d hd => ⟨hhead d hd, ?_⟩⟩
              exact (cut_eq_error_iff.1 hcut).1
          | ok piece =>
              have hlonger := congrArg List.length hcs
              have hshorter := length_rest_lt hcut
              rw [List.length_append] at hlonger
              obtain ⟨tiles, gap', rest', htiled, hrest⟩ :=
                ih piece.rest.length (by omega) piece.rest rfl
              have hlongest := cut_eq_ok_iff.1 hcut
              have happend := hlongest.append_eq
              refine ⟨⟨gap, piece.written, piece.token⟩ :: tiles, gap', rest', ?_, hrest⟩
              rw [← hcs, ← happend]
              exact .cons hgap (happend ▸ hlongest) htiled

theorem scan_gap_nil {gap : List Char} (hgap : gap.all isSkipped = true) (here : Position) :
    scan here gap = .ok ⟨[], here.after gap⟩ := by
  rw [← List.append_nil gap, scan_gap hgap, scan, List.append_nil]

theorem scan_noLexeme {gap rest : List Char} {c : Char} (hgap : gap.all isSkipped = true)
    (hc : isSkipped c = false) (hnone : NoLexeme (c :: rest)) (here : Position) :
    scan here (gap ++ c :: rest) = .error ⟨.ofFirst c, here.after gap⟩ := by
  have hcut : cut c rest = .error (.ofFirst c) := cut_eq_error_iff.2 ⟨hnone, rfl⟩
  rw [scan_gap hgap, scan_uncut (by simp [hc]) hcut]

theorem ofSource_of_tiled {source : String} {tiles : List Tile} {gap : List Char}
    (h : Tiled source.toList tiles gap) (hgap : gap.all isSkipped = true) :
    ofSource source = .ok ⟨Tile.lexemes [] tiles, .behind source.toList⟩ := by
  have hscan := scan_tiled h []
  rw [List.nil_append, scan_gap_nil hgap, ← Position.behind_append, h.append_eq] at hscan
  refine hscan.trans ?_
  simp [Except.map, behind]

theorem ofSource_of_noLexeme {source : String} {tiles : List Tile} {gap rest : List Char} {c : Char}
    (h : Tiled source.toList tiles (gap ++ c :: rest)) (hgap : gap.all isSkipped = true)
    (hc : isSkipped c = false) (hnone : NoLexeme (c :: rest)) :
    ofSource source = .error ⟨.ofFirst c, .behind (Tile.spelled tiles ++ gap)⟩ := by
  have hscan := scan_tiled h []
  rw [List.nil_append, scan_noLexeme hgap hc hnone, ← Position.behind_append] at hscan
  exact hscan

theorem ofSource_tiled_or_refused (source : String) :
    (∃ tiles gap, Tiled source.toList tiles gap ∧ gap.all isSkipped = true ∧
      ofSource source = .ok ⟨Tile.lexemes [] tiles, .behind source.toList⟩) ∨
    ∃ tiles gap c rest, Tiled source.toList tiles (gap ++ c :: rest) ∧ gap.all isSkipped = true ∧
      isSkipped c = false ∧ NoLexeme (c :: rest) ∧
      ofSource source = .error ⟨.ofFirst c, .behind (Tile.spelled tiles ++ gap)⟩ := by
  obtain ⟨tiles, gap, rest, htiled, hgap, hrest⟩ := exists_tiled source.toList
  cases rest with
  | nil =>
      rw [List.append_nil] at htiled
      exact .inl ⟨tiles, gap, htiled, hgap, ofSource_of_tiled htiled hgap⟩
  | cons c rest =>
      obtain ⟨hc, hnone⟩ := hrest c rfl
      exact .inr ⟨tiles, gap, c, rest, htiled, hgap, hc, hnone,
        ofSource_of_noLexeme htiled hgap hc hnone⟩

/-- A text is cut into the longest lexemes one after another, white space between them. Each lexeme
and the end of the text stand where counting line feeds and characters places them. The text is
refused at the first character at which no lexeme starts, and in the words for that character. -/
theorem ofSource_cuts_longest (source : String) :
    (∀ lexemes, ofSource source = .ok lexemes ↔ ∃ tiles gap, Tiled source.toList tiles gap ∧
      gap.all isSkipped = true ∧
      lexemes = ⟨Tile.lexemes [] tiles, .behind source.toList⟩) ∧
    (∀ e, ofSource source = .error e ↔ ∃ tiles gap c rest,
      Tiled source.toList tiles (gap ++ c :: rest) ∧ gap.all isSkipped = true ∧
      isSkipped c = false ∧ NoLexeme (c :: rest) ∧ e.pos = .behind (Tile.spelled tiles ++ gap) ∧
      LexProblem.Complaint c e.problem.message) := by
  refine ⟨fun lexemes => ⟨fun h => ?_, ?_⟩, fun e => ⟨fun h => ?_, ?_⟩⟩
  · rcases ofSource_tiled_or_refused source with ⟨tiles, gap, htiled, hgap, hresult⟩ |
      ⟨_, _, _, _, _, _, _, _, hresult⟩ <;> rw [hresult] at h <;> cases h
    exact ⟨tiles, gap, htiled, hgap, rfl⟩
  · rintro ⟨tiles, gap, htiled, hgap, rfl⟩
    exact ofSource_of_tiled htiled hgap
  · rcases ofSource_tiled_or_refused source with ⟨_, _, _, _, hresult⟩ |
      ⟨tiles, gap, c, rest, htiled, hgap, hc, hnone, hresult⟩ <;> rw [hresult] at h <;> cases h
    exact ⟨tiles, gap, c, rest, htiled, hgap, hc, hnone, rfl,
      LexProblem.complaint_message_iff.2 rfl⟩
  · rintro ⟨tiles, gap, c, rest, htiled, hgap, hc, hnone, hpos, hmessage⟩
    rw [ofSource_of_noLexeme htiled hgap hc hnone, ← hpos,
      ← LexProblem.complaint_message_iff.1 hmessage]

end FileChores.Lexemes
