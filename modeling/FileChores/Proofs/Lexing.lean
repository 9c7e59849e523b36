import FileChores.Lexeme

/-!
# Cutting a text again

A lexeme depends on nothing behind it but the one character that ends it. So the lexemes at the
front of a script are cut again when the script is broken off behind any of them and goes on
differently after white space, and lexemes that are written with spaces between them are cut one by
one.
-/

namespace FileChores.Lexeme

/-- White space or nothing is in front, so that no lexeme goes on. -/
def Parted (after : List Char) : Prop :=
  ∀ c ∈ after.head?, isSkipped c = true

/-- What ended the lexeme in front of `rest` ends it in front of `after` as well. -/
def EndsLike (rest after : List Char) : Prop :=
  after.head? = rest.head? ∨ Parted after

theorem parted_nil : Parted [] := by
  intro c hc
  cases hc

theorem parted_space (after : List Char) : Parted (' ' :: after) := by
  intro c hc
  cases hc
  rfl

theorem isDigit_eq_false_of_isSkipped {c : Char} (h : isSkipped c = true) : c.isDigit = false := by
  simp only [isSkipped, Bool.or_eq_true, beq_iff_eq] at h
  rcases h with ((rfl | rfl) | rfl) | rfl <;> decide

theorem isWordPart_eq_false_of_isSkipped {c : Char} (h : isSkipped c = true) :
    isWordPart c = false := by
  simp only [isSkipped, Bool.or_eq_true, beq_iff_eq] at h
  rcases h with ((rfl | rfl) | rfl) | rfl <;> decide

theorem head?_dropWhile_eq_false {p : Char → Bool} (rest : List Char) :
    ∀ c ∈ (rest.dropWhile p).head?, p c = false := by
  intro c hc
  have := List.head?_dropWhile_not p rest
  rw [hc] at this
  exact this

theorem span_run {p : Char → Bool} {run after : List Char} (hrun : run.all p = true)
    (hafter : ∀ c ∈ after.head?, p c = false) :
    (run ++ after).takeWhile p = run ∧ (run ++ after).dropWhile p = after := by
  rw [List.all_eq_true] at hrun
  rw [List.takeWhile_append_of_pos hrun, List.dropWhile_append_of_pos hrun]
  cases after with
  | nil => simp
  | cons c after => simp [hafter c rfl]

theorem Parted.stops {p : Char → Bool} (hskipped : ∀ c, isSkipped c = true → p c = false)
    {after : List Char} (h : Parted after) : ∀ c ∈ after.head?, p c = false :=
  fun c hc => hskipped c (h c hc)

theorem EndsLike.stops {p : Char → Bool} (hskipped : ∀ c, isSkipped c = true → p c = false)
    {rest after : List Char} (h : EndsLike (rest.dropWhile p) after) :
    ∀ c ∈ after.head?, p c = false := by
  rcases h with h | h
  · rw [h]
    exact head?_dropWhile_eq_false rest
  · exact h.stops hskipped

theorem untilQuote_again {cs inner rest : List Char} (h : untilQuote cs = some (inner, rest))
    (after : List Char) : untilQuote (inner ++ '"' :: after) = some (inner, after) := by
  fun_induction untilQuote cs generalizing inner with
  | case1 => cases h
  | case2 => cases h; rfl
  | case3 c cs ih =>
      obtain ⟨⟨inner', rest'⟩, hrest, heq⟩ := Option.map_eq_some_iff.1 h
      cases heq
      simp [untilQuote, ih hrest]
  | case4 c cs hquote hescape ih =>
      obtain ⟨⟨inner', rest'⟩, hrest, heq⟩ := Option.map_eq_some_iff.1 h
      cases heq
      rw [List.cons_append, untilQuote, ih hrest]
      · rfl
      · exact hquote
      · rintro d ds rfl -
        cases cs with
        | nil => cases hrest
        | cons e es => exact hescape e es rfl rfl

theorem cut_quote {rest inner after : List Char} (h : untilQuote rest = some (inner, after)) :
    cut '"' rest = .ok ⟨.text (.ofList (unescape inner)), '"' :: inner ++ ['"'], after⟩ := by
  unfold cut
  rw [if_pos rfl, h]

theorem cut_digit {c : Char} (hc : c.isDigit = true) (rest : List Char) :
    cut c rest = .ok ⟨.number (Number.ofDigits (c :: rest.takeWhile Char.isDigit)),
      c :: rest.takeWhile Char.isDigit, rest.dropWhile Char.isDigit⟩ := by
  have hquote : c ≠ '"' := by
    rintro rfl
    exact absurd hc (by decide)
  unfold cut
  rw [if_neg hquote, if_pos hc]

theorem isWordStart_eq_false_of_isDigit {c : Char} (hc : c.isDigit = true) :
    isWordStart c = false := by
  have hcode : c.toNat < 0x41 := by
    simp only [Char.isDigit, Bool.and_eq_true, decide_eq_true_eq] at hc
    have := UInt32.le_iff_toNat_le.1 hc.2
    unfold Char.toNat
    exact Nat.lt_of_le_of_lt this (by decide)
  have halphabetic : Text.isAlphabetic c = false := by
    rw [Text.isAlphabetic, Text.Alphabetic.ranges, Text.CodeRange.covers, if_pos hcode]
  have hline : c ≠ '_' := by
    rintro rfl
    exact absurd hc (by decide)
  rw [isWordStart, halphabetic, Bool.false_or, beq_eq_false_iff_ne]
  exact hline

theorem cut_word {c : Char} (hc : isWordStart c = true) (rest : List Char) :
    cut c rest = .ok ⟨.ofWord (.ofList (c :: rest.takeWhile isWordPart)),
      c :: rest.takeWhile isWordPart, rest.dropWhile isWordPart⟩ := by
  have hquote : c ≠ '"' := by
    rintro rfl
    exact absurd hc (by decide)
  have hdigit : c.isDigit ≠ true := by
    intro h
    rw [isWordStart_eq_false_of_isDigit h] at hc
    cases hc
  unfold cut
  rw [if_neg hquote, if_neg hdigit, if_pos hc]

theorem cut_assign {after : List Char} (hafter : ∀ c ∈ after.head?, c ≠ '=') :
    cut '=' after = .ok ⟨.assign, ['='], after⟩ := by
  unfold cut
  rw [if_neg (by decide), if_neg (by decide), if_neg (by decide)]
  cases after with
  | nil => rfl
  | cons c after =>
      have hc := hafter c rfl
      split <;> simp_all

/-- A lexeme is cut again in front of anything that ends it. -/
theorem cut_again {c : Char} {rest after : List Char} {piece : Cut} (h : cut c rest = .ok piece)
    (hafter : EndsLike piece.rest after) :
    ∃ run, piece.written = c :: run ∧ cut c (run ++ after) = .ok { piece with rest := after } := by
  unfold cut at h
  split at h
  · next hquote =>
      subst hquote
      split at h <;> cases h
      next inner rest' hinner =>
        refine ⟨inner ++ ['"'], rfl, ?_⟩
        rw [List.append_assoc, List.singleton_append]
        exact cut_quote (untilQuote_again hinner after)
  next hquote =>
  split at h
  · next hdigit =>
      cases h
      obtain ⟨htake, hdrop⟩ := span_run (List.all_takeWhile (l := rest))
        (hafter.stops fun c => isDigit_eq_false_of_isSkipped)
      exact ⟨rest.takeWhile Char.isDigit, rfl, by rw [cut_digit hdigit, htake, hdrop]⟩
  next hdigit =>
  split at h
  · next hword =>
      cases h
      obtain ⟨htake, hdrop⟩ := span_run (List.all_takeWhile (l := rest))
        (hafter.stops fun c => isWordPart_eq_false_of_isSkipped)
      exact ⟨rest.takeWhile isWordPart, rfl, by rw [cut_word hword, htake, hdrop]⟩
  next hword =>
  split at h <;> cases h
  case h_2 hequal =>
      refine ⟨[], rfl, cut_assign ?_⟩
      rintro c hc rfl
      rcases hafter with hafter | hafter
      · rw [List.nil_append, hafter] at hc
        obtain ⟨rest', rfl⟩ := List.head?_eq_some_iff.1 hc
        exact hequal rest' rfl
      · exact absurd (hafter '=' hc) (by decide)
  all_goals
    exact ⟨_, rfl, by simp [cut, hquote, hdigit, hword]⟩

end FileChores.Lexeme

namespace FileChores.Lexemes

open Lexeme

def behind (front : List Lexeme) (later : Lexemes) : Lexemes :=
  ⟨front ++ later.list, later.finish⟩

theorem scan_skipped {here : Position} {c : Char} (hc : isSkipped c = true) (rest : List Char) :
    scan here (c :: rest) = scan (here.advance c) rest := by
  rw [scan, if_pos hc]

theorem scan_cut {here : Position} {c : Char} (hc : isSkipped c ≠ true) {rest : List Char}
    {piece : Cut} (h : cut c rest = .ok piece) :
    scan here (c :: rest) =
      (scan (here.after piece.written) piece.rest).map (behind [⟨piece.token, here⟩]) := by
  rw [scan, if_neg hc]
  split
  · next hcut =>
      rw [h] at hcut
      cases hcut
  · next hcut =>
      rw [h] at hcut
      cases hcut
      cases scan (here.after piece.written) piece.rest <;> rfl

theorem scan_uncut {here : Position} {c : Char} (hc : isSkipped c ≠ true) {rest : List Char}
    {problem : LexProblem} (h : cut c rest = .error problem) :
    scan here (c :: rest) = .error ⟨problem, here⟩ := by
  rw [scan, if_neg hc]
  split
  · next hcut =>
      rw [h] at hcut
      cases hcut
      rfl
  · next hcut =>
      rw [h] at hcut
      cases hcut

theorem map_behind_nil (result : Except LexError Lexemes) : result.map (behind []) = result := by
  cases result <;> rfl

theorem map_behind (result : Except LexError Lexemes) (front more : List Lexeme) :
    (result.map (behind more)).map (behind front) = result.map (behind (front ++ more)) := by
  cases result with
  | error e => rfl
  | ok later => simp [Except.map, behind]

/-- Broken off behind its lexeme `k`, a script keeps the lexemes up to there. -/
theorem scan_front {here : Position} {cs : List Char} {lexemes : Lexemes}
    (h : scan here cs = .ok lexemes) {k : Nat} (hk : k ≤ lexemes.list.length) :
    ∃ front, front <+: cs ∧ ∀ tail, Parted tail → scan here (front ++ tail) =
      (scan (here.after front) tail).map (behind (lexemes.list.take k)) := by
  fun_induction scan here cs generalizing lexemes k with
  | case1 here =>
      cases h
      refine ⟨[], List.nil_prefix, fun tail _ => ?_⟩
      rw [List.take_nil, map_behind_nil]
      rfl
  | case2 here c rest hc ih =>
      obtain ⟨front, hfront, hscan⟩ := ih h hk
      refine ⟨c :: front, List.cons_prefix_cons.2 ⟨rfl, hfront⟩, fun tail htail => ?_⟩
      rw [List.cons_append, scan_skipped hc, hscan tail htail]
      rfl
  | case3 => cases h
  | case4 here c rest hc piece hcut ih =>
      cases hlater : scan (here.after piece.written) piece.rest with
      | error e => rw [hlater] at h; cases h
      | ok later =>
          rw [hlater] at h
          cases h
          cases k with
          | zero =>
              refine ⟨[], List.nil_prefix, fun tail _ => ?_⟩
              rw [List.take_zero, map_behind_nil]
              rfl
          | succ k =>
              obtain ⟨front, ⟨back, hback⟩, hscan⟩ := ih hlater (k := k) (by simpa using hk)
              refine ⟨piece.written ++ front, ⟨back, ?_⟩, fun tail htail => ?_⟩
              · rw [List.append_assoc, hback, cut_append hcut]
              have hends : EndsLike piece.rest (front ++ tail) := by
                rw [← hback]
                cases front with
                | nil => exact .inr htail
                | cons d front => exact .inl rfl
              obtain ⟨run, hrun, hagain⟩ := cut_again hcut hends
              rw [List.append_assoc, hrun, List.cons_append, scan_cut hc hagain, hscan tail htail,
                map_behind, Position.after_append, ← hrun]
              rfl

end FileChores.Lexemes
