import FileChores.Proofs.Lexing.Tiling
import FileChores.Proofs.Moved

/-!
# Cutting a text behind another one

Put behind another text, a text is cut into the same lexemes, each as far behind the end of the
other text as it was behind the start. White space at the end of a text moves the end of the text
and nothing else.
-/

namespace FileChores

namespace Position

/-- Where a place of a text stands when the text begins at `base`. -/
def shift (base here : Position) : Position :=
  ⟨base.line - 1 + here.line, if here.line = 1 then base.column - 1 + here.column else here.column⟩

theorem line_pos_advance {here : Position} (h : 1 ≤ here.line) (c : Char) :
    1 ≤ (here.advance c).line := by
  rw [advance]
  split
  · exact Nat.le_add_left 1 here.line
  · exact h

theorem shift_advance {here : Position} (h : 1 ≤ here.line) (base : Position) (c : Char) :
    base.shift (here.advance c) = (base.shift here).advance c := by
  by_cases hc : c = '\n'
  · have hline : here.line ≠ 0 := by omega
    simp [shift, advance, hc, hline, Nat.add_assoc]
  · by_cases hline : here.line = 1 <;> simp [shift, advance, hc, hline, Nat.add_assoc]

theorem shift_after {here : Position} (h : 1 ≤ here.line) (base : Position) (run : List Char) :
    base.shift (here.after run) = (base.shift here).after run := by
  induction run generalizing here with
  | nil => rfl
  | cons c run ih =>
      rw [after_cons, after_cons, ih (line_pos_advance h c), shift_advance h]

theorem behind_eq_after (run : List Char) : behind run = start.after run :=
  behind_append [] run

theorem shift_start (before : List Char) : (behind before).shift start = behind before := by
  simp [shift, start, behind, Nat.add_comm]

theorem shift_behind (before run : List Char) :
    (behind before).shift (behind run) = behind (before ++ run) := by
  rw [behind_eq_after run, shift_after (Nat.le_refl 1), shift_start, behind_append]

theorem line_shift (before : List Char) (here : Position) :
    ((behind before).shift here).line = before.count '\n' + here.line := by
  simp [shift, behind]

theorem column_le_shift (base here : Position) : here.column ≤ (base.shift here).column := by
  rw [shift]
  dsimp only
  split
  · exact Nat.le_add_left _ _
  · exact Nat.le_refl _

theorem eq_nil_of_takeWhile {before : List Char} (hline : '\n' ∉ before)
    (hcolumn : (before.reverse.takeWhile (· ≠ '\n')).length = 0) : before = [] := by
  have hall : before.reverse.all (· ≠ '\n') = true := by
    rw [List.all_eq_true]
    intro c hc
    refine decide_eq_true fun heq => hline ?_
    rw [← heq]
    exact List.mem_reverse.1 hc
  have htake : (before.reverse ++ []).takeWhile (· ≠ '\n') = before.reverse :=
    (Lexeme.span_run hall fun _ hc => absurd hc (Option.not_mem_none _)).1
  rw [List.append_nil] at htake
  rw [htake, List.length_reverse] at hcolumn
  exact List.length_eq_zero_iff.1 hcolumn

/-- A place of a text keeps its numbers behind nothing, and behind a text without line feeds unless
it is on the first line. -/
theorem shift_eq_iff (before : List Char) (here : Position) :
    (behind before).shift here = here ↔ before = [] ∨ '\n' ∉ before ∧ here.line ≠ 1 := by
  constructor
  · intro h
    have hline := congrArg Position.line h
    rw [line_shift] at hline
    have hcount : before.count '\n' = 0 := by omega
    have hnone := List.count_eq_zero.1 hcount
    by_cases hfirst : here.line = 1
    · have hcolumn := congrArg Position.column h
      simp only [shift, behind, if_pos hfirst] at hcolumn
      exact .inl (eq_nil_of_takeWhile hnone (by omega))
    · exact .inr ⟨hnone, hfirst⟩
  · rintro (rfl | ⟨hnone, hfirst⟩)
    · simp [shift, behind]
    · have hcount := List.count_eq_zero.2 hnone
      simp [shift, behind, hcount, hfirst]

theorem after_grows (here : Position) (run : List Char) :
    here.line < (here.after run).line ∨
      here.line = (here.after run).line ∧ here.column + run.length = (here.after run).column := by
  induction run generalizing here with
  | nil => exact .inr ⟨rfl, rfl⟩
  | cons c run ih =>
      rw [after_cons, List.length_cons]
      have hrun := ih (here.advance c)
      by_cases hc : c = '\n'
      · simp only [advance, if_pos hc] at hrun ⊢
        omega
      · simp only [advance, if_neg hc] at hrun ⊢
        omega

/-- The end of a text has the numbers that it has inside of other characters just when none follow
and those in front do not count. -/
theorem behind_inside_eq_iff (lead core trail : List Char) :
    behind (lead ++ (core ++ trail)) = behind core ↔
      trail = [] ∧ (lead = [] ∨ '\n' ∉ lead ∧ (behind core).line ≠ 1) := by
  rw [← List.append_assoc, behind_append, ← shift_behind]
  constructor
  · intro h
    have hline := line_shift lead (behind core)
    have hcolumn := column_le_shift (behind lead) (behind core)
    have hgrows := after_grows ((behind lead).shift (behind core)) trail
    rw [h] at hgrows
    have htrail : trail = [] := List.length_eq_zero_iff.1 (by omega)
    subst htrail
    exact ⟨rfl, (shift_eq_iff lead _).1 h⟩
  · rintro ⟨rfl, h⟩
    exact (shift_eq_iff lead _).2 h

end Position

namespace Lexeme

theorem not_skipped_of_all {p : Char → Bool} (hskipped : ∀ c, isSkipped c = true → p c = false)
    {run : List Char} (hrun : run.all p = true) : ∀ c ∈ run.getLast?, isSkipped c = false := by
  intro c hc
  have hp : p c = true := List.all_eq_true.1 hrun c (List.mem_of_getLast? hc)
  refine Bool.eq_false_iff.2 fun hc' => ?_
  rw [hskipped c hc'] at hp
  cases hp

theorem Spells.not_skipped {run : List Char} {token : Token} (h : Spells run token) :
    ∀ c ∈ run.getLast?, isSkipped c = false := by
  cases h with
  | keyword h =>
      simp only [keywords, List.mem_cons, Prod.mk.injEq, List.not_mem_nil, or_false] at h
      rcases h with h | h | h | h
      all_goals
        obtain ⟨rfl, rfl⟩ := h
        intro c hc
        cases hc
        rfl
  | word h =>
      obtain ⟨first, run, hname, hfirst, hrun⟩ := h.1
      rw [hname]
      refine not_skipped_of_all (fun c => isWordPart_eq_false_of_isSkipped) ?_
      rw [List.all_cons, Token.isWordPart_of_isWordStart hfirst, hrun]
      rfl
  | number hfirst hrun =>
      refine not_skipped_of_all (fun c => isDigit_eq_false_of_isSkipped) ?_
      rw [List.all_cons, hfirst, hrun]
      rfl
  | text =>
      intro c hc
      rw [List.getLast?_append] at hc
      cases hc
      rfl
  | sign h =>
      simp only [signs, List.mem_cons, Prod.mk.injEq, List.not_mem_nil, or_false] at h
      rcases h with h | h | h | h | h | h | h | h | h | h | h | h
      all_goals
        obtain ⟨rfl, rfl⟩ := h
        intro c hc
        cases hc
        rfl

theorem cut_append_error {c : Char} {rest trail : List Char} {problem : LexProblem}
    (htrail : trail.all isSkipped = true) (h : cut c rest = .error problem) :
    cut c (rest ++ trail) = .error problem := by
  obtain ⟨hnone, hproblem⟩ := cut_eq_error_iff.1 h
  refine cut_eq_error_iff.2 ⟨fun run token hspells hfront => ?_, hproblem⟩
  obtain ⟨after, hafter⟩ := hfront
  rw [← List.cons_append] at hafter
  rcases List.append_eq_append_iff.1 hafter with ⟨back, hback, -⟩ | ⟨more, rfl, hmore⟩
  · exact hnone run token hspells ⟨back, hback.symm⟩
  · cases hlast : more.getLast? with
    | none =>
        rw [List.getLast?_eq_none_iff.1 hlast, List.append_nil] at hspells
        exact hnone _ token hspells (List.prefix_refl _)
    | some d =>
        have hskipped : isSkipped d = true := by
          rw [hmore, List.all_append, Bool.and_eq_true] at htrail
          exact List.all_eq_true.1 htrail.1 d (List.mem_of_getLast? hlast)
        have hnot := hspells.not_skipped d (by rw [List.getLast?_append, hlast]; rfl)
        rw [hskipped] at hnot
        cases hnot

theorem parted_of_all {trail : List Char} (htrail : trail.all isSkipped = true) :
    Parted trail := by
  intro c hc
  exact List.all_eq_true.1 htrail c (List.mem_of_mem_head? hc)

theorem cut_append_ok {c : Char} {rest trail : List Char} {piece : Cut}
    (htrail : Parted trail) (h : cut c rest = .ok piece) :
    cut c (rest ++ trail) = .ok { piece with rest := piece.rest ++ trail } := by
  have hends : EndsLike piece.rest (piece.rest ++ trail) := by
    cases piece.rest with
    | nil => exact .inr htrail
    | cons d rest => exact .inl rfl
  obtain ⟨run, hrun, hagain⟩ := cut_again h hends
  have hrest := cut_append h
  rw [hrun, List.cons_append] at hrest
  rw [← (List.cons.inj hrest).2, List.append_assoc]
  exact hagain

end Lexeme

namespace Lexemes

open Lexeme

theorem map_behind_moved {f : Position → Position} {here here' : Position} (h : f here = here')
    (token : Token) (result : Except LexError Lexemes) :
    ((result.mapError (LexError.moved f)).map (Lexemes.moved f)).map (behind [⟨token, here'⟩]) =
      ((result.map (behind [⟨token, here⟩])).mapError (LexError.moved f)).map
        (Lexemes.moved f) := by
  subst h
  cases result <;> rfl

/-- Characters are cut alike wherever they stand. -/
theorem scan_moved {f : Position → Position} {here here' : Position}
    (h : ∀ run, f (here.after run) = here'.after run) (cs : List Char) :
    scan here' cs = ((scan here cs).mapError (LexError.moved f)).map (Lexemes.moved f) := by
  have hhere : f here = here' := h []
  fun_induction scan here cs generalizing here' with
  | case1 here =>
      subst hhere
      rw [scan]
      rfl
  | case2 here c rest hc ih =>
      rw [scan_skipped hc]
      exact ih (fun run => h (c :: run)) (h [c])
  | case3 here c rest hc problem hcut =>
      subst hhere
      rw [scan_uncut hc hcut]
      rfl
  | case4 here c rest hc piece hcut ih =>
      have hrun : ∀ run, f ((here.after piece.written).after run) =
          (here'.after piece.written).after run := by
        intro run
        rw [← Position.after_append, ← Position.after_append]
        exact h (piece.written ++ run)
      rw [scan_cut hc hcut, ih hrun (hrun []), map_behind_moved hhere]
      cases scan (here.after piece.written) piece.rest <;> rfl

theorem scan_append_skipped {trail : List Char} (htrail : trail.all isSkipped = true)
    (here : Position) (cs : List Char) :
    scan here (cs ++ trail) =
      (scan here cs).map fun lexemes => ⟨lexemes.list, lexemes.finish.after trail⟩ := by
  fun_induction scan here cs with
  | case1 here =>
      rw [List.nil_append, scan_gap_nil htrail]
      rfl
  | case2 here c rest hc ih => rw [List.cons_append, scan_skipped hc, ih]
  | case3 here c rest hc problem hcut =>
      rw [List.cons_append, scan_uncut hc (cut_append_error htrail hcut)]
      rfl
  | case4 here c rest hc piece hcut ih =>
      rw [List.cons_append, scan_cut hc (cut_append_ok (parted_of_all htrail) hcut), ih]
      cases scan (here.after piece.written) piece.rest <;> rfl

theorem finish_of_ofSource {source : String} {lexemes : Lexemes}
    (h : ofSource source = .ok lexemes) : lexemes.finish = .behind source.toList := by
  rcases ofSource_tiled_or_refused source with ⟨_, _, _, _, hresult⟩ |
    ⟨_, _, _, _, _, _, _, _, hresult⟩ <;> rw [hresult] at h <;> cases h
  rfl

end Lexemes

end FileChores
