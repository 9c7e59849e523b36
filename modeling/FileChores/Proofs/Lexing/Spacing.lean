import FileChores.Proofs.Lexing.Moving

/-!
# White space between lexemes

A text that ends in white space is cut by itself, whatever stands behind it. Between two lexemes of
a script the white space can go unless the first one would run into the second.
-/

namespace FileChores

namespace Token

def isWord : Token → Bool
  | word _ | varKeyword | ifKeyword | elseKeyword | forKeyword => true
  | _ => false

def isNumber : Token → Bool
  | number _ => true
  | _ => false

/-- A word or a keyword is in front of another one or of a number, a number in front of a number, or
an `=` in front of `=` or `==`. -/
inductive RunsInto : Token → Token → Prop
  | word {first second : Token} : first.isWord = true →
      second.isWord = true ∨ second.isNumber = true → RunsInto first second
  | number {first second : Token} : first.isNumber = true → second.isNumber = true →
      RunsInto first second
  | assign {second : Token} : second = .assign ∨ second = .equal → RunsInto .assign second

theorem isNumber_eq_false {token : Token} (h : token.isWord = true) : token.isNumber = false := by
  cases token with
  | number => cases h
  | _ => rfl

def goesOn : Token → Char → Bool
  | number _, c => c.isDigit
  | assign, c => c == '='
  | token, c => token.isWord && Lexeme.isWordPart c

theorem goesOn_of_isWord {token : Token} (h : token.isWord = true) (c : Char) :
    token.goesOn c = Lexeme.isWordPart c := by
  cases token with
  | word | varKeyword | ifKeyword | elseKeyword | forKeyword => rfl
  | _ => cases h

theorem goesOn_of_isNumber {token : Token} (h : token.isNumber = true) (c : Char) :
    token.goesOn c = c.isDigit := by
  cases token with
  | number => rfl
  | _ => cases h

theorem written_ofWord (name : String) : (ofWord name).written = name := by
  unfold ofWord
  split <;> rfl

end Token

def Tile.bare (tile : Tile) : Tile :=
  { tile with gap := [] }

namespace Lexeme

/-! ## A text in front of white space -/

/-- Where no lexeme starts, none starts when more stands behind white space. Only a text that has
no end may find one there. -/
theorem cut_error_again {c : Char} {rest after : List Char} {problem : LexProblem}
    (h : cut c rest = .error problem) (hproblem : problem ≠ .unterminatedText)
    (hafter : Parted after) : cut c (rest ++ after) = .error problem := by
  unfold cut at h ⊢
  split at h
  · split at h <;> cases h
    exact absurd rfl hproblem
  next hquote =>
  split at h
  · cases h
  next hdigit =>
  split at h
  · cases h
  next hword =>
  rw [if_neg hquote, if_neg hdigit, if_neg hword]
  split at h <;> cases h
  · next hlone =>
      have hnone : ∀ rest', rest ++ after ≠ '=' :: rest' := by
        intro rest' heq
        cases rest with
        | nil => exact absurd (hafter '=' (by rw [← List.nil_append after, heq]; rfl)) (by decide)
        | cons d rest =>
            cases heq
            exact hlone rest rfl
      split <;> simp_all
  · split <;> simp_all

/-! ## Words and numbers as they are written -/

theorem isWordPart_of_isDigit {c : Char} (h : c.isDigit = true) : isWordPart c = true := by
  have hnumeric : Text.isNumeric c = true := by
    simp only [Char.isDigit, Bool.and_eq_true, decide_eq_true_eq] at h
    have hlow : 0x30 ≤ c.toNat := UInt32.le_iff_toNat_le.1 h.1
    have hhigh : c.toNat ≤ 0x39 := UInt32.le_iff_toNat_le.1 h.2
    rw [Text.isNumeric, Text.Numeric.ranges, Text.CodeRange.covers, if_neg (Nat.not_lt.2 hlow),
      decide_eq_true hhigh, Bool.true_or]
  rw [isWordPart, hnumeric, Bool.or_true, Bool.true_or]

theorem isDigit_eq_false_of_isWordStart {c : Char} (h : isWordStart c = true) :
    c.isDigit = false := by
  rw [Bool.eq_false_iff]
  intro hdigit
  rw [isWordStart_eq_false_of_isDigit hdigit] at h
  cases h

theorem ne_equals_of_isWordPart {c : Char} (h : isWordPart c = true) : c ≠ '=' := by
  rintro rfl
  exact absurd h (by decide)

theorem isWord_of_mem_keywords {name : String} {token : Token} (h : (name, token) ∈ keywords) :
    token.isWord = true := by
  simp only [keywords, List.mem_cons, Prod.mk.injEq, List.not_mem_nil, or_false] at h
  rcases h with ⟨-, rfl⟩ | ⟨-, rfl⟩ | ⟨-, rfl⟩ | ⟨-, rfl⟩ <;> rfl

theorem mem_signs_tells {run : List Char} {token : Token} (h : (run, token) ∈ signs) :
    token.isWord = false ∧ token.isNumber = false ∧ ∃ c, run.head? = some c ∧
      isWordPart c = false ∧ (c = '=' ↔ token = .assign ∨ token = .equal) := by
  simp only [signs, List.mem_cons, Prod.mk.injEq, List.not_mem_nil, or_false] at h
  rcases h with h | h | h | h | h | h | h | h | h | h | h | h
  all_goals
    obtain ⟨rfl, rfl⟩ := h
    exact ⟨rfl, rfl, _, rfl, by decide, by simp⟩

theorem Spells.word_eq {run : List Char} {token : Token} (h : Spells run token)
    (hword : token.isWord = true) : ∃ c rest, run = c :: rest ∧ isWordStart c = true ∧
      rest.all isWordPart = true ∧ token = .ofWord (.ofList run) := by
  cases h with
  | keyword h =>
      simp only [keywords, List.mem_cons, Prod.mk.injEq, List.not_mem_nil, or_false] at h
      rcases h with h | h | h | h
      all_goals
        obtain ⟨rfl, rfl⟩ := h
        exact ⟨_, _, rfl, by decide, by decide, rfl⟩
  | word h =>
      obtain ⟨c, rest, hname, hc, hrest⟩ := h.1
      refine ⟨c, rest, hname, hc, hrest, ?_⟩
      rw [String.ofList_toList, Token.ofWord_of_isName h]
  | number => cases hword
  | text => cases hword
  | sign h =>
      rw [(mem_signs_tells h).1] at hword
      cases hword

theorem Spells.number_eq {run : List Char} {token : Token} (h : Spells run token)
    (hnumber : token.isNumber = true) : ∃ c rest, run = c :: rest ∧ c.isDigit = true ∧
      rest.all Char.isDigit = true ∧ token = .number (Number.ofDigits run) := by
  cases h with
  | number hc hrest hnearest =>
      rw [hnearest.eq_ofNat]
      exact ⟨_, _, rfl, hc, hrest, rfl⟩
  | keyword h =>
      have hword := isWord_of_mem_keywords h
      cases token with
      | number => cases hword
      | _ => cases hnumber
  | word => cases hnumber
  | text => cases hnumber
  | sign h =>
      rw [(mem_signs_tells h).2.1] at hnumber
      cases hnumber

theorem Spells.head_tells {run : List Char} {token : Token} (h : Spells run token) :
    ∃ c, run.head? = some c ∧ isWordPart c = (token.isWord || token.isNumber) ∧
      c.isDigit = token.isNumber ∧ (c = '=' ↔ token = .assign ∨ token = .equal) := by
  by_cases hword : token.isWord = true
  · obtain ⟨c, rest, rfl, hc, -, -⟩ := h.word_eq hword
    have hpart := Token.isWordPart_of_isWordStart hc
    refine ⟨c, rfl, by rw [hpart, hword, Bool.true_or], ?_, ?_⟩
    · rw [isDigit_eq_false_of_isWordStart hc, Token.isNumber_eq_false hword]
    · refine iff_of_false (ne_equals_of_isWordPart hpart) ?_
      rintro (rfl | rfl) <;> cases hword
  by_cases hnumber : token.isNumber = true
  · obtain ⟨c, rest, rfl, hc, -, -⟩ := h.number_eq hnumber
    have hpart := isWordPart_of_isDigit hc
    refine ⟨c, rfl, by rw [hpart, hnumber, Bool.or_true], hc.trans hnumber.symm, ?_⟩
    refine iff_of_false (ne_equals_of_isWordPart hpart) ?_
    rintro (rfl | rfl) <;> cases hnumber
  obtain ⟨c, hc, hpart, hequals⟩ : ∃ c, run.head? = some c ∧ isWordPart c = false ∧
      (c = '=' ↔ token = .assign ∨ token = .equal) := by
    cases h with
    | keyword h => exact absurd (isWord_of_mem_keywords h) hword
    | word => exact absurd rfl hword
    | number => exact absurd rfl hnumber
    | text => exact ⟨'"', rfl, by decide, by simp⟩
    | sign h => exact (mem_signs_tells h).2.2
  rw [Bool.not_eq_true] at hword hnumber
  refine ⟨c, hc, by rw [hpart, hword, hnumber, Bool.or_false], ?_, hequals⟩
  rw [hnumber, Bool.eq_false_iff]
  intro hdigit
  rw [isWordPart_of_isDigit hdigit] at hpart
  cases hpart

/-- A lexeme runs into the next one just when the next one starts with a character that goes on
with it. -/
theorem goesOn_head_iff {first second : Token} {run : List Char} (h : Spells run second) :
    (∃ c ∈ run.head?, first.goesOn c = true) ↔ first.RunsInto second := by
  obtain ⟨c, hc, hpart, hdigit, hequals⟩ := h.head_tells
  rw [hc]
  constructor
  · rintro ⟨_, ⟨⟩, hgoes⟩
    cases first with
    | number value => exact .number rfl (hdigit.symm.trans hgoes)
    | assign => exact .assign (hequals.1 (beq_iff_eq.1 hgoes))
    | _ =>
        simp only [Token.goesOn, Bool.and_eq_true, hpart, Bool.or_eq_true] at hgoes
        exact .word hgoes.1 hgoes.2
  · intro hruns
    refine ⟨c, rfl, ?_⟩
    cases hruns with
    | word hfirst hsecond =>
        rw [Token.goesOn_of_isWord hfirst, hpart, Bool.or_eq_true]
        exact hsecond
    | number hfirst hsecond =>
        rw [Token.goesOn_of_isNumber hfirst, hdigit, hsecond]
    | assign hsecond => exact beq_iff_eq.2 (hequals.2 hsecond)

theorem Spells.written_eq {run : List Char} {token : Token} (h : Spells run token)
    (htoken : token.isWord = true ∨ token = .assign) : token.written = .ofList run := by
  rcases htoken with hword | rfl
  · obtain ⟨c, rest, -, -, -, htoken⟩ := h.word_eq hword
    rw [htoken, Token.written_ofWord]
  · generalize htoken : Token.assign = token at h
    cases h with
    | keyword h =>
        subst htoken
        cases isWord_of_mem_keywords h
    | sign h =>
        subst htoken
        obtain rfl : run = ['='] := by simpa [signs] using h
        rfl
    | _ => cases htoken

theorem Spells.grows {run : List Char} {token : Token} (h : Spells run token) {c : Char}
    (hc : token.goesOn c = true) : ∃ longer, Spells (run ++ [c]) longer := by
  by_cases hword : token.isWord = true
  · obtain ⟨d, rest, rfl, hd, hrest, -⟩ := h.word_eq hword
    rw [Token.goesOn_of_isWord hword] at hc
    exact ⟨_, spells_ofWord hd (by simp [hrest, hc])⟩
  cases token with
  | number =>
      obtain ⟨d, rest, rfl, hd, hrest, -⟩ := h.number_eq rfl
      have hdigit : c.isDigit = true := hc
      exact ⟨_, .number hd (by simp [hrest, hdigit]) (Number.isNearest_ofNat _)⟩
  | assign =>
      have hrun : run = ['='] := String.ofList_injective (h.written_eq (.inr rfl)).symm
      obtain rfl : c = '=' := beq_iff_eq.1 hc
      rw [hrun]
      exact ⟨.equal, .sign (by simp [signs])⟩
  | _ => simp [Token.goesOn, hword] at hc

/-- Characters that spell a token are cut off as that token just where the next character does not
go on with it. -/
theorem longest_before_iff {run : List Char} {token : Token} (h : Spells run token)
    (after : List Char) : Longest (run ++ after) ⟨token, run, after⟩ ↔
      ∀ c ∈ after.head?, token.goesOn c = false := by
  constructor
  · intro hlongest c hc
    rw [Bool.eq_false_iff]
    intro hgoes
    obtain ⟨rest, rfl⟩ := List.head?_eq_some_iff.1 hc
    obtain ⟨longer, hlonger⟩ := h.grows hgoes
    have hlength := hlongest.longest _ _ hlonger ⟨rest, by simp⟩
    rw [List.length_append] at hlength
    exact absurd hlength (Nat.not_succ_le_self _)
  · intro hafter
    by_cases hword : token.isWord = true
    · obtain ⟨c, rest, rfl, hc, hrest, rfl⟩ := h.word_eq hword
      obtain ⟨htake, hdrop⟩ := span_run (p := isWordPart) hrest fun d hd => by
        rw [← Token.goesOn_of_isWord hword]
        exact hafter d hd
      have hcut := cut_word hc (rest ++ after)
      rw [htake, hdrop] at hcut
      exact cut_eq_ok_iff.1 hcut
    cases h with
    | keyword h => exact absurd (isWord_of_mem_keywords h) hword
    | word => exact absurd rfl hword
    | @number c run x hc hrun hnearest =>
        obtain ⟨htake, hdrop⟩ := span_run (p := Char.isDigit) hrun hafter
        have hcut := cut_digit hc (run ++ after)
        rw [htake, hdrop] at hcut
        rw [hnearest.eq_ofNat]
        exact cut_eq_ok_iff.1 hcut
    | @text inner content h =>
        have hcut := cut_quote (h.untilQuote_eq after)
        rw [h.unescape_eq] at hcut
        have := cut_eq_ok_iff.1 hcut
        simpa using this
    | sign h =>
        simp only [signs, List.mem_cons, Prod.mk.injEq, List.not_mem_nil, or_false] at h
        rcases h with h | h | h | h | h | h | h | h | h | h | h | h
        case inr.inr.inl =>
          obtain ⟨rfl, rfl⟩ := h
          exact cut_eq_ok_iff.1 (cut_assign fun c hc => beq_eq_false_iff_ne.1 (hafter c hc))
        all_goals
          obtain ⟨rfl, rfl⟩ := h
          exact cut_eq_ok_iff.1 rfl

theorem exists_longest {run : List Char} {token : Token} (h : Spells run token)
    (after : List Char) : ∃ piece, Longest (run ++ after) piece := by
  obtain ⟨c, rest, hrun⟩ := List.exists_cons_of_ne_nil h.ne_nil
  rw [hrun] at h ⊢
  have hfront : c :: rest <+: c :: (rest ++ after) := ⟨after, rfl⟩
  obtain ⟨piece, hpiece, -⟩ := isTaken_of_prefix h hfront
  exact ⟨piece, cut_eq_ok_iff.1 hpiece⟩

theorem Longest.token_ne {run run' rest : List Char} {first second : Token} {piece : Cut}
    (hpiece : Longest (run ++ (run' ++ rest)) piece) (h : Spells run first)
    (h' : Spells run' second) (hfirst : first.isWord = true ∨ first = .assign)
    (hruns : first.RunsInto second) : piece.token ≠ first := by
  rintro rfl
  obtain ⟨token, written, left⟩ := piece
  obtain rfl : written = run := String.ofList_injective
    ((hpiece.spells.written_eq hfirst).symm.trans (h.written_eq hfirst))
  obtain rfl : left = run' ++ rest := List.append_cancel_left hpiece.append_eq
  obtain ⟨c, hc, hgoes⟩ := (goesOn_head_iff h').2 hruns
  have hends := (longest_before_iff h _).1 hpiece c
    (by rw [List.head?_append, Option.mem_def.1 hc]; rfl)
  rw [hgoes] at hends
  cases hends

theorem Longest.again {written rest after : List Char} {token : Token}
    (h : Longest (written ++ rest) ⟨token, written, rest⟩) (hafter : EndsLike rest after) :
    Longest (written ++ after) ⟨token, written, after⟩ := by
  cases written with
  | nil => exact absurd rfl h.spells.ne_nil
  | cons c run =>
      obtain ⟨run', hrun, hagain⟩ := cut_again (cut_eq_ok_iff.2 h) hafter
      cases hrun
      exact cut_eq_ok_iff.1 hagain

end Lexeme

/-! ## Tiles -/

namespace Tile

theorem tokens_lexemes (before : List Char) (tiles : List Tile) :
    (lexemes before tiles).map (·.token) = tiles.map (·.token) := by
  induction tiles generalizing before with
  | nil => rfl
  | cons tile tiles ih => rw [lexemes, List.map_cons, List.map_cons, ih]

end Tile

open Lexeme

theorem Tiled.split {cs left : List Char} {front back : List Tile}
    (h : Tiled cs (front ++ back) left) :
    ∃ middle, Tiled cs front middle ∧ Tiled middle back left := by
  induction front generalizing cs with
  | nil => exact ⟨cs, .nil cs, h⟩
  | cons tile front ih =>
      cases h with
      | cons hgap hlongest hrest =>
          obtain ⟨middle, hfront, hback⟩ := ih hrest
          exact ⟨middle, .cons hgap hlongest hfront, hback⟩

theorem Tiled.append {cs middle left : List Char} {front back : List Tile}
    (hfront : Tiled cs front middle) (hback : Tiled middle back left) :
    Tiled cs (front ++ back) left := by
  induction hfront with
  | nil => exact hback
  | cons hgap hlongest _ ih => exact .cons hgap hlongest (ih hback)

/-- The same tiles stand in front of anything that ends the last of them. -/
theorem Tiled.again {cs left after : List Char} {tiles : List Tile} (h : Tiled cs tiles left)
    (hafter : EndsLike left after) : Tiled (Tile.spelled tiles ++ after) tiles after := by
  induction h with
  | nil => exact .nil after
  | @cons gap written rest left token tiles hgap hlongest hrest ih =>
      have hends : EndsLike rest (Tile.spelled tiles ++ after) := by
        rw [← hrest.append_eq]
        cases Tile.spelled tiles with
        | nil => exact hafter
        | cons c run => exact .inl rfl
      have := Tiled.cons hgap (hlongest.again hends) (ih hafter)
      simpa [Tile.spelled] using this

def Tile.joined (front : List Tile) (first second : Tile) (back : List Tile) : List Tile :=
  front ++ first :: second.bare :: back

section

variable {cs left : List Char} {front back : List Tile} {first second : Tile}

theorem Tiled.neighbours (h : Tiled cs (front ++ first :: second :: back) left) :
    first.gap.all isSkipped = true ∧ Spells first.written first.token ∧
    Spells second.written second.token ∧ ∃ rest,
      Longest (second.written ++ rest) ⟨second.token, second.written, rest⟩ ∧
      Tiled rest back left ∧
      Tiled (Tile.spelled (Tile.joined front first second back) ++ left) front
        (first.gap ++ (first.written ++ (second.written ++ rest))) := by
  obtain ⟨middle, hfront, hrest⟩ := h.split
  cases hrest with
  | @cons gap written behind _ token _ hgap hlongest hrest =>
  cases hrest with
  | @cons gap' written' rest _ token' _ hgap' hlongest' hback =>
  refine ⟨hgap, hlongest.spells, hlongest'.spells, rest, hlongest', hback, ?_⟩
  have hends : EndsLike (gap ++ (written ++ (gap' ++ (written' ++ rest))))
      (gap ++ (written ++ (written' ++ rest))) := by
    obtain ⟨c, run, hrun⟩ : ∃ c run, gap ++ written = c :: run :=
      List.exists_cons_of_ne_nil (by simp [hlongest.spells.ne_nil])
    rw [← List.append_assoc, ← List.append_assoc gap, hrun]
    exact .inl rfl
  have hagain := hfront.again hends
  rw [← hback.append_eq] at hagain ⊢
  simpa [Tile.joined, Tile.spelled, Tile.bare] using hagain

theorem Tiled.joined (h : Tiled cs (front ++ first :: second :: back) left)
    (hruns : ¬ first.token.RunsInto second.token) :
    Tiled (Tile.spelled (Tile.joined front first second back) ++ left)
      (Tile.joined front first second back) left := by
  obtain ⟨hgap, hspells, hspells', rest, hlongest, hback, hfront⟩ := h.neighbours
  obtain ⟨c, run, hwritten⟩ := List.exists_cons_of_ne_nil hspells'.ne_nil
  have hfirst : Longest (first.written ++ (second.written ++ rest))
      ⟨first.token, first.written, second.written ++ rest⟩ := by
    refine (longest_before_iff hspells _).2 fun d hd => ?_
    rw [hwritten] at hd
    rw [Bool.eq_false_iff]
    intro hgoes
    exact hruns ((goesOn_head_iff hspells').1 ⟨d, by rw [hwritten]; exact hd, hgoes⟩)
  have hnothing : ([] : List Char).all isSkipped = true := rfl
  exact hfront.append (.cons hgap hfirst (.cons hnothing hlongest hback))

theorem Tiled.merged (h : Tiled cs (front ++ first :: second :: back) left)
    (hfirst : first.token.isNumber = true) (hsecond : second.token.isNumber = true) :
    ∃ tile, Tiled (Tile.spelled (Tile.joined front first second back) ++ left)
      (front ++ tile :: back) left := by
  obtain ⟨hgap, hspells, hspells', rest, hlongest, hback, hfront⟩ := h.neighbours
  obtain ⟨c, run, hrun, hc, hdigits, -⟩ := hspells.number_eq hfirst
  obtain ⟨d, run', hrun', hd, hdigits', -⟩ := hspells'.number_eq hsecond
  have hmerged : Spells (first.written ++ second.written)
      (.number (Number.ofDigits (first.written ++ second.written))) := by
    rw [hrun, hrun', List.cons_append]
    exact .number hc (by simp [hdigits, hd, hdigits']) (Number.isNearest_ofNat _)
  have hends : ∀ e ∈ rest.head?, e.isDigit = false := by
    intro e he
    rw [← Token.goesOn_of_isNumber hsecond]
    exact (longest_before_iff hlongest.spells rest).1 hlongest e he
  have hlonger := (longest_before_iff hmerged rest).2 hends
  rw [← List.append_assoc first.written] at hfront
  exact ⟨_, hfront.append (.cons hgap hlonger hback)⟩

end

namespace Lexemes

theorem scan_append {here : Position} {cs : List Char} {lexemes : Lexemes}
    (h : scan here cs = .ok lexemes) {after : List Char} (hafter : Parted after) :
    scan here (cs ++ after) = (scan lexemes.finish after).map (behind lexemes.list) := by
  fun_induction scan here cs generalizing lexemes with
  | case1 here =>
      cases h
      rw [List.nil_append, map_behind_nil]
  | case2 here c rest hc ih => rw [List.cons_append, scan_skipped hc, ih h]
  | case3 => cases h
  | case4 here c rest hc piece hcut ih =>
      cases hlater : scan (here.after piece.written) piece.rest with
      | error e => rw [hlater] at h; cases h
      | ok later =>
          rw [hlater] at h
          cases h
          rw [List.cons_append, scan_cut hc (cut_append_ok hafter hcut), ih hlater, map_behind]
          rfl

theorem scan_append_error {here : Position} {cs : List Char} {e : LexError}
    (h : scan here cs = .error e) (hproblem : e.problem ≠ .unterminatedText) {after : List Char}
    (hafter : Parted after) : scan here (cs ++ after) = .error e := by
  fun_induction scan here cs with
  | case1 => cases h
  | case2 here c rest hc ih => rw [List.cons_append, scan_skipped hc, ih h]
  | case3 here c rest hc problem hcut =>
      cases h
      rw [List.cons_append, scan_uncut hc (cut_error_again hcut hproblem hafter)]
  | case4 here c rest hc piece hcut ih =>
      cases hlater : scan (here.after piece.written) piece.rest with
      | ok later => rw [hlater] at h; cases h
      | error e =>
          rw [hlater] at h
          cases h
          rw [List.cons_append, scan_cut hc (cut_append_ok hafter hcut), ih hlater]
          rfl

theorem tokens_of_tiled {cs left : List Char} {tiles : List Tile} (h : Tiled cs tiles left)
    {lexemes : Lexemes} (hlexemes : ofSource (.ofList cs) = .ok lexemes) :
    ∃ later : Lexemes, lexemes.tokens = tiles.map (·.token) ++ later.tokens := by
  have hscan := scan_tiled h []
  rw [ofSource, String.toList_ofList] at hlexemes
  cases hlater : scan (.behind ([] ++ Tile.spelled tiles)) left with
  | error e =>
      rw [hlater] at hscan
      cases hlexemes.symm.trans hscan
  | ok later =>
      rw [hlater] at hscan
      cases hlexemes.symm.trans hscan
      refine ⟨later, ?_⟩
      rw [← Tile.tokens_lexemes []]
      exact List.map_append

section

variable {cs left : List Char} {front back : List Tile} {first second : Tile}

/-- Neighbours of which the first runs into the second are not read back without the white space
between them. -/
theorem tokens_joined_ne (h : Tiled cs (front ++ first :: second :: back) left)
    (hleft : left.all isSkipped = true) (hruns : first.token.RunsInto second.token)
    {lexemes : Lexemes} (hlexemes : ofSource
      (.ofList (Tile.spelled (Tile.joined front first second back) ++ left)) = .ok lexemes) :
    lexemes.tokens ≠ (front ++ first :: second :: back).map (·.token) := by
  intro htokens
  have hcases : first.token.isNumber = true ∧ second.token.isNumber = true ∨
      first.token.isWord = true ∨ first.token = .assign := by
    generalize first.token = token at hruns
    cases hruns with
    | word hword => exact .inr (.inl hword)
    | number hfirst hsecond => exact .inl ⟨hfirst, hsecond⟩
    | assign => exact .inr (.inr rfl)
  rcases hcases with ⟨hfirst, hsecond⟩ | hfirst
  · -- With a zero in front a number keeps its token, but there is one lexeme less.
    obtain ⟨tile, hmerged⟩ := h.merged hfirst hsecond
    rw [← String.toList_ofList (l := _ ++ left)] at hmerged
    rw [Except.ok.inj (hlexemes.symm.trans (ofSource_of_tiled hmerged hleft)), tokens,
      Tile.tokens_lexemes] at htokens
    have hfewer := congrArg List.length htokens
    simp at hfewer
  · obtain ⟨hgap, hspells, hspells', rest, -, -, hfront⟩ := h.neighbours
    obtain ⟨piece, hpiece⟩ := exists_longest hspells (second.written ++ rest)
    have hne := hpiece.token_ne hspells hspells' hfirst hruns
    have hcut := hpiece.append_eq
    rw [← hcut] at hpiece hfront
    obtain ⟨later, hlater⟩ :=
      tokens_of_tiled (hfront.append (.cons hgap hpiece (.nil piece.rest))) hlexemes
    obtain ⟨htoken, -⟩ : first.token = piece.token ∧ _ := by
      simpa using htokens.symm.trans hlater
    exact hne htoken.symm

end

theorem parted_append {w : String} (hw : w ≠ "") (hskipped : w.toList.all isSkipped = true)
    (after : List Char) : Parted (w.toList ++ after) := by
  intro c hc
  cases hlist : w.toList with
  | nil => exact absurd (String.toList_eq_nil_iff.1 hlist) hw
  | cons d rest =>
      rw [hlist] at hc hskipped
      cases hc
      exact (Bool.and_eq_true _ _ ▸ hskipped).1

theorem scan_behind (before : List Char) (b : String) :
    scan (.behind before) b.toList =
      ((ofSource b).mapError (LexError.moved (Position.behind before).shift)).map
        (Lexemes.moved (Position.behind before).shift) := by
  refine scan_moved (fun run => ?_) b.toList
  rw [Position.shift_after (Nat.le_refl 1), Position.shift_start]

/-- A text that ends in white space is cut, or refused, as it is without what stands behind it, and
behind it the rest is cut as if it stood alone, with its places moved on. In a text that is cut, the
white space between two neighbouring lexemes can go, and the tokens stay the same, just when the
first does not run into the second. -/
theorem ofSource_spacing :
    (∀ a w b : String, w ≠ "" → w.toList.all isSkipped = true →
      (∀ lexemes, ofSource a = .ok lexemes → ofSource (a ++ w ++ b) =
        ((ofSource b).mapError (LexError.moved (Position.behind (a ++ w).toList).shift)).map
          fun later => behind lexemes.list
            (later.moved (Position.behind (a ++ w).toList).shift)) ∧
      ∀ e, ofSource a = .error e → e.problem ≠ .unterminatedText →
        ofSource (a ++ w ++ b) = .error e) ∧
    ∀ source lexemes, ofSource source = .ok lexemes → ∃ tiles trail,
      Tiled source.toList tiles trail ∧ trail.all isSkipped = true ∧
      lexemes.tokens = tiles.map (·.token) ∧
      ∀ front first second back, tiles = front ++ first :: second :: back →
        ((∃ again,
            ofSource (.ofList (Tile.spelled (Tile.joined front first second back) ++ trail)) =
              .ok again ∧ again.tokens = lexemes.tokens) ↔
          ¬ first.token.RunsInto second.token) := by
  refine ⟨fun a w b hw hskipped => ⟨fun lexemes h => ?_, fun e h hproblem => ?_⟩,
    fun source lexemes h => ?_⟩
  · rw [ofSource, String.toList_append, String.toList_append, List.append_assoc,
      scan_append h (parted_append hw hskipped _), scan_gap hskipped, finish_of_ofSource h,
      ← Position.behind_append, ← String.toList_append, scan_behind]
    cases ofSource b <;> rfl
  · rw [ofSource, String.toList_append, String.toList_append, List.append_assoc]
    exact scan_append_error h hproblem (parted_append hw hskipped _)
  · rcases ofSource_tiled_or_refused source with ⟨tiles, trail, htiled, htrail, hresult⟩ |
      ⟨_, _, _, _, _, _, _, _, hresult⟩ <;> rw [hresult] at h <;> cases h
    refine ⟨tiles, trail, htiled, htrail, Tile.tokens_lexemes [] tiles, ?_⟩
    rintro front first second back rfl
    have htokens := Tile.tokens_lexemes [] (front ++ first :: second :: back)
    constructor
    · rintro ⟨again, hagain, hsame⟩ hruns
      exact tokens_joined_ne htiled htrail hruns hagain (hsame.trans htokens)
    · intro hruns
      have hjoined := htiled.joined hruns
      rw [← String.toList_ofList (l := _ ++ trail)] at hjoined
      refine ⟨_, ofSource_of_tiled hjoined htrail, ?_⟩
      refine (Tile.tokens_lexemes [] _).trans (Eq.trans ?_ htokens.symm)
      simp [Tile.joined, Tile.bare]

theorem ofSource_spacing_two_words :
    ofSource ("a" ++ "\n " ++ "b") =
      .ok ⟨[⟨.word "a", ⟨1, 1⟩⟩, ⟨.word "b", ⟨2, 2⟩⟩], ⟨2, 3⟩⟩ ∧
    ∃ first second trail, Tiled ("a" ++ "\n " ++ "b").toList [first, second] trail ∧
      ¬ ∃ again, ofSource (.ofList (Tile.spelled (Tile.joined [] first second []) ++ trail)) =
        .ok again ∧ again.tokens = [.word "a", .word "b"] := by
  have hfirst : ofSource "a" = .ok ⟨[⟨.word "a", ⟨1, 1⟩⟩], ⟨1, 2⟩⟩ := by cbv
  have hsecond : ofSource "b" = .ok ⟨[⟨.word "b", ⟨1, 1⟩⟩], ⟨1, 2⟩⟩ := by cbv
  have hboth := (ofSource_spacing.1 "a" "\n " "b" (by decide) (by decide)).1 _ hfirst
  rw [hsecond] at hboth
  refine ⟨hboth, ?_⟩
  obtain ⟨tiles, trail, htiled, -, htokens, hjoined⟩ := ofSource_spacing.2 _ _ hboth
  obtain ⟨first, rest, rfl, hword, hrest⟩ := List.map_eq_cons_iff.1 htokens.symm
  obtain ⟨second, rest, rfl, hword', hrest⟩ := List.map_eq_cons_iff.1 hrest
  obtain rfl := List.map_eq_nil_iff.1 hrest
  refine ⟨first, second, trail, htiled, fun hagain => (hjoined [] first second [] rfl).1 hagain ?_⟩
  rw [hword, hword']
  exact .word rfl (.inl rfl)

end Lexemes

end FileChores
