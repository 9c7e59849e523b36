import FileChores.Proofs.Lexing.Longest

/-!
# A text without a keyword

Where the keyword of declarations stands as a token, spaces are written in its place. All other
tokens stay where they are, and the text has no more of that one.
-/

namespace FileChores

def Token.isVar : Token → Bool
  | varKeyword => true
  | _ => false

def Lexeme.unkeyed (lexemes : List Lexeme) : List Lexeme :=
  lexemes.filter (!·.token.isVar)

namespace Lexeme

def Cut.blanked (piece : Cut) : List Char :=
  if piece.token.isVar then [' ', ' ', ' '] else piece.written

/-- The characters with spaces for every token that is the keyword of a declaration. Behind
characters that are no lexeme nothing is changed. -/
def blanked : List Char → List Char
  | [] => []
  | c :: rest =>
      if isSkipped c then c :: blanked rest
      else
        match _ : cut c rest with
        | .error _ => c :: rest
        | .ok piece => piece.blanked ++ blanked piece.rest
  termination_by cs => cs.length
  decreasing_by
    · simp
    · exact length_rest_lt ‹_›

theorem blanked_skipped {c : Char} (hc : isSkipped c = true) (rest : List Char) :
    blanked (c :: rest) = c :: blanked rest := by
  rw [blanked, if_pos hc]

theorem blanked_cut {c : Char} (hc : isSkipped c ≠ true) {rest : List Char} {piece : Cut}
    (h : cut c rest = .ok piece) :
    blanked (c :: rest) = piece.blanked ++ blanked piece.rest := by
  rw [blanked, if_neg hc]
  split
  · next hcut =>
      rw [h] at hcut
      cases hcut
  · next hcut =>
      rw [h] at hcut
      cases hcut
      rfl

theorem written_of_isVar {c : Char} {rest : List Char} {piece : Cut} (h : cut c rest = .ok piece)
    (hvar : piece.token.isVar = true) : piece.written = ['v', 'a', 'r'] := by
  have hspells := spells_of_cut h
  generalize piece.token = token at *
  generalize piece.written = written at *
  cases hspells with
  | keyword hname =>
      simp only [keywords, List.mem_cons, List.not_mem_nil, Prod.mk.injEq, or_false] at hname
      rcases hname with ⟨rfl, -⟩ | ⟨-, rfl⟩ | ⟨-, rfl⟩ | ⟨-, rfl⟩
      · rfl
      all_goals cases hvar
  | sign hsign =>
      simp only [signs, List.mem_cons, List.not_mem_nil, Prod.mk.injEq, or_false] at hsign
      rcases hsign with ⟨-, rfl⟩ | ⟨-, rfl⟩ | ⟨-, rfl⟩ | ⟨-, rfl⟩ | ⟨-, rfl⟩ | ⟨-, rfl⟩ | ⟨-, rfl⟩ |
        ⟨-, rfl⟩ | ⟨-, rfl⟩ | ⟨-, rfl⟩ | ⟨-, rfl⟩ | ⟨-, rfl⟩ <;> cases hvar
  | _ => cases hvar

theorem endsLike_blanked (rest : List Char) : EndsLike rest (blanked rest) := by
  cases rest with
  | nil =>
      rw [blanked]
      exact .inl rfl
  | cons c rest =>
      by_cases hc : isSkipped c = true
      · rw [blanked_skipped hc]
        exact .inl rfl
      cases hcut : cut c rest with
      | error problem =>
          rw [blanked, if_neg hc]
          split
          · exact .inl rfl
          · next hok =>
              rw [hcut] at hok
              cases hok
      | ok piece =>
          rw [blanked_cut hc hcut, Cut.blanked]
          split
          · exact .inr (parted_space _)
          · obtain ⟨run, hrun, -⟩ := cut_again hcut (.inl rfl)
            rw [hrun]
            exact .inl rfl

end Lexeme

namespace Lexemes

open Lexeme

theorem scan_blanked {here : Position} {cs : List Char} {lexemes : Lexemes}
    (h : scan here cs = .ok lexemes) :
    scan here (Lexeme.blanked cs) = .ok ⟨unkeyed lexemes.list, lexemes.finish⟩ := by
  fun_induction scan here cs generalizing lexemes with
  | case1 here =>
      cases h
      rw [blanked, scan]
      rfl
  | case2 here c rest hc ih => rw [blanked_skipped hc, scan_skipped hc, ih h]
  | case3 => cases h
  | case4 here c rest hc piece hcut ih =>
      cases hlater : scan (here.after piece.written) piece.rest with
      | error e => rw [hlater] at h; cases h
      | ok later =>
          rw [hlater] at h
          cases h
          rw [blanked_cut hc hcut, Cut.blanked]
          cases hvar : piece.token.isVar with
          | true =>
              have hspaces : ((here.advance ' ').advance ' ').advance ' ' =
                  here.after piece.written := by
                rw [written_of_isVar hcut hvar]
                rfl
              rw [if_pos rfl, List.cons_append, List.cons_append, List.cons_append, List.nil_append,
                scan_skipped rfl, scan_skipped rfl, scan_skipped rfl, hspaces, ih hlater]
              simp [unkeyed, hvar]
          | false =>
              obtain ⟨run, hrun, hagain⟩ := cut_again hcut (endsLike_blanked piece.rest)
              rw [if_neg Bool.false_ne_true, hrun, List.cons_append, scan_cut hc hagain]
              simp [ih hlater, Except.map, behind, unkeyed, hvar]

/-- The script with spaces for every token that is the keyword of a declaration. -/
def blanked (source : String) : String :=
  .ofList (Lexeme.blanked source.toList)

theorem ofSource_blanked {source : String} {lexemes : Lexemes} (h : ofSource source = .ok lexemes) :
    ofSource (blanked source) = .ok ⟨unkeyed lexemes.list, lexemes.finish⟩ := by
  rw [ofSource, blanked, String.toList_ofList]
  exact scan_blanked h

end Lexemes

end FileChores
