import FileChores.Proofs.Number.Bits
import FileChores.Proofs.Writing

/-!
# The longest lexeme

How each lexeme is spelled, said without cutting anything. What is cut off the front of a text is
the longest lexeme that stands there, and nothing is cut exactly where none does.
-/

namespace FileChores

namespace Lexeme

/-- What stands between the quotes of a text, and what it spells. -/
inductive Quoted : List Char → List Char → Prop
  | nil : Quoted [] []
  | plain {c : Char} {inner content : List Char} : c ≠ '"' → c ≠ '\\' → Quoted inner content →
      Quoted (c :: inner) (c :: content)
  | escaped (c : Char) {inner content : List Char} : Quoted inner content →
      Quoted ('\\' :: c :: inner) (c :: content)

def keywords : List (String × Token) :=
  [("var", .varKeyword), ("if", .ifKeyword), ("else", .elseKeyword), ("for", .forKeyword)]

def signs : List (List Char × Token) :=
  [(['+'], .plus), (['-'], .minus), (['='], .assign), (['=', '='], .equal), (['!', '='], .notEqual),
    (['<'], .less), (['>'], .greater), (['('], .openParen), ([')'], .closeParen),
    (['{'], .openBrace), (['}'], .closeBrace), ([','], .comma)]

/-- The characters are one lexeme, and this is its token. -/
inductive Spells : List Char → Token → Prop
  | keyword {name : String} {token : Token} : (name, token) ∈ keywords → Spells name.toList token
  | word {name : String} : Token.IsName name → Spells name.toList (.word name)
  | number {c : Char} {run : List Char} {x : Float} : c.isDigit = true →
      run.all Char.isDigit = true → Number.IsNearest (Nat.ofDigitChars 10 (c :: run) 0) x →
      Spells (c :: run) (.number x)
  | text {inner content : List Char} : Quoted inner content →
      Spells ('"' :: inner ++ ['"']) (.text (.ofList content))
  | sign {run : List Char} {token : Token} : (run, token) ∈ signs → Spells run token

/-- A lexeme at the front of a text of which no longer front is a lexeme. -/
structure Longest (cs : List Char) (piece : Cut) : Prop where
  spells : Spells piece.written piece.token
  append_eq : piece.written ++ piece.rest = cs
  longest : ∀ run token, Spells run token → run <+: cs → run.length ≤ piece.written.length

theorem quoted_of_untilQuote {cs inner after : List Char}
    (h : untilQuote cs = some (inner, after)) : Quoted inner (unescape inner) := by
  fun_induction untilQuote cs generalizing inner with
  | case1 => cases h
  | case2 => cases h; exact .nil
  | case3 c rest ih =>
      obtain ⟨⟨inner', after'⟩, hrest, heq⟩ := Option.map_eq_some_iff.1 h
      cases heq
      rw [unescape]
      exact .escaped c (ih hrest)
  | case4 c rest hquote hescape ih =>
      obtain ⟨⟨inner', after'⟩, hrest, heq⟩ := Option.map_eq_some_iff.1 h
      cases heq
      have hbackslash : c ≠ '\\' := by
        rintro rfl
        cases rest with
        | nil => cases hrest
        | cons d rest => exact hescape d rest rfl rfl
      rw [unescape]
      · exact .plain hquote hbackslash (ih hrest)
      · exact fun _ _ h => absurd h hbackslash

theorem Quoted.untilQuote_eq {inner content : List Char} (h : Quoted inner content)
    (after : List Char) : untilQuote (inner ++ '"' :: after) = some (inner, after) := by
  induction h with
  | nil => rfl
  | plain hquote hbackslash _ ih =>
      rw [List.cons_append, untilQuote, ih]
      · rfl
      · exact hquote
      · exact fun _ _ h => absurd h hbackslash
  | escaped c _ ih => simp [untilQuote, ih]

theorem Quoted.unescape_eq {inner content : List Char} (h : Quoted inner content) :
    unescape inner = content := by
  induction h with
  | nil => rfl
  | plain _ hbackslash _ ih =>
      rw [unescape, ih]
      exact fun _ _ h => absurd h hbackslash
  | escaped c _ ih => rw [unescape, ih]

theorem spells_ofWord {c : Char} {run : List Char} (hc : isWordStart c = true)
    (hrun : run.all isWordPart = true) : Spells (c :: run) (.ofWord (.ofList (c :: run))) := by
  have hname : (String.ofList (c :: run)).toList = c :: run := String.toList_ofList
  have hword := Token.isName_or_keyword hc hrun
  generalize String.ofList (c :: run) = name at *
  rw [← hname]
  rcases hword with h | h
  · rw [Token.ofWord_of_isName h]
    exact .word h
  · simp only [List.mem_cons, List.not_mem_nil, or_false] at h
    rcases h with rfl | rfl | rfl | rfl <;> exact .keyword (by simp [keywords, Token.ofWord])

theorem spells_of_cut {c : Char} {rest : List Char} {piece : Cut} (h : cut c rest = .ok piece) :
    Spells piece.written piece.token := by
  unfold cut at h
  split at h
  · next hquote =>
      subst hquote
      split at h <;> cases h
      next hinner => exact .text (quoted_of_untilQuote hinner)
  split at h
  · next hdigit =>
      cases h
      exact .number hdigit List.all_takeWhile (Number.isNearest_ofNat _)
  split at h
  · next hword =>
      cases h
      exact spells_ofWord hword List.all_takeWhile
  · split at h <;> cases h
    all_goals exact .sign (by simp [signs])

def IsTaken (c : Char) (run : List Char) (token : Token) : Prop :=
  ∀ after, ∃ piece, cut c (run ++ after) = .ok piece ∧ c :: run <+: piece.written ∧
    (piece.written = c :: run → piece.token = token)

theorem isTaken_word {c : Char} {run : List Char} (hc : isWordStart c = true)
    (hrun : run.all isWordPart = true) : IsTaken c run (.ofWord (.ofList (c :: run))) := by
  intro after
  refine ⟨_, cut_word hc (run ++ after), ?_, congrArg fun word => Token.ofWord (.ofList word)⟩
  rw [List.takeWhile_append_of_pos (List.all_eq_true.1 hrun), ← List.cons_append]
  exact List.prefix_append _ _

theorem isTaken_number {c : Char} {run : List Char} (hc : c.isDigit = true)
    (hrun : run.all Char.isDigit = true) :
    IsTaken c run (.number (Number.ofDigits (c :: run))) := by
  intro after
  refine ⟨_, cut_digit hc (run ++ after), ?_,
    congrArg fun digits => Token.number (Number.ofDigits digits)⟩
  rw [List.takeWhile_append_of_pos (List.all_eq_true.1 hrun), ← List.cons_append]
  exact List.prefix_append _ _

theorem isTaken_text {inner content : List Char} (h : Quoted inner content) :
    IsTaken '"' (inner ++ ['"']) (.text (.ofList content)) := by
  intro after
  refine ⟨⟨.text (.ofList (unescape inner)), '"' :: inner ++ ['"'], after⟩, ?_,
    List.prefix_rfl, fun _ => by rw [h.unescape_eq]⟩
  rw [List.append_assoc, List.singleton_append]
  exact cut_quote (h.untilQuote_eq after)

theorem isTaken_sign {c : Char} {run : List Char} {token : Token}
    (h : (c :: run, token) ∈ signs) : IsTaken c run token := by
  intro after
  by_cases hassign : c = '=' ∧ run = []
  · obtain ⟨rfl, rfl⟩ := hassign
    obtain rfl : token = .assign := by simpa [signs] using h
    rcases after with _ | ⟨d, after⟩
    · exact ⟨_, rfl, List.prefix_rfl, fun _ => rfl⟩
    by_cases hd : d = '='
    · subst hd
      exact ⟨_, rfl, ⟨['='], rfl⟩, fun hwritten => by cases hwritten⟩
    · refine ⟨_, cut_assign ?_, List.prefix_rfl, fun _ => rfl⟩
      rintro _ ⟨⟩
      exact hd
  · refine ⟨⟨token, c :: run, after⟩, ?_, List.prefix_rfl, fun _ => rfl⟩
    simp only [signs, List.mem_cons, Prod.mk.injEq, List.cons.injEq, List.not_mem_nil,
      or_false] at h
    rcases h with h | h | h | h | h | h | h | h | h | h | h | h
    case inr.inr.inl => exact absurd h.1 hassign
    all_goals
      obtain ⟨⟨rfl, rfl⟩, rfl⟩ := h
      rfl

theorem isTaken_of_spells {c : Char} {run : List Char} {token : Token}
    (h : Spells (c :: run) token) : IsTaken c run token := by
  generalize hcs : c :: run = cs at h
  cases h with
  | @keyword name token h =>
      have hword : name.toList = c :: run := hcs.symm
      simp only [keywords, List.mem_cons, Prod.mk.injEq, List.not_mem_nil, or_false] at h
      rcases h with h | h | h | h
      all_goals
        obtain ⟨rfl, rfl⟩ := h
        cases hword
        exact isTaken_word (by decide) (by decide)
  | @word name h =>
      obtain ⟨d, run', hname, hd, hrun⟩ := h.1
      cases hcs.trans hname
      rw [← Token.ofWord_of_isName h, ← String.ofList_toList (s := name), hname]
      exact isTaken_word hd hrun
  | number hd hrun hnearest =>
      cases hcs
      rw [hnearest.eq_ofNat]
      exact isTaken_number hd hrun
  | text h =>
      cases hcs
      exact isTaken_text h
  | sign h =>
      subst hcs
      exact isTaken_sign h

theorem Spells.ne_nil {run : List Char} {token : Token} (h : Spells run token) : run ≠ [] := by
  cases h with
  | keyword h =>
      rintro hnil
      simp only [keywords, List.mem_cons, Prod.mk.injEq, List.not_mem_nil, or_false] at h
      rcases h with h | h | h | h
      all_goals
        obtain ⟨rfl, rfl⟩ := h
        cases hnil
  | word h =>
      obtain ⟨c, run, hname, -⟩ := h.1
      rw [hname]
      exact List.cons_ne_nil _ _
  | number => exact List.cons_ne_nil _ _
  | text => exact List.cons_ne_nil _ _
  | sign h =>
      rintro rfl
      simp [signs] at h

theorem isTaken_of_prefix {c : Char} {rest run : List Char} {token : Token} (h : Spells run token)
    (hfront : run <+: c :: rest) : ∃ piece, cut c rest = .ok piece ∧ run <+: piece.written ∧
      (piece.written = run → piece.token = token) := by
  obtain ⟨after, hafter⟩ := hfront
  cases run with
  | nil => exact absurd rfl h.ne_nil
  | cons d run =>
      cases hafter
      exact isTaken_of_spells h after

theorem cut_eq_ok_iff {c : Char} {rest : List Char} {piece : Cut} :
    cut c rest = .ok piece ↔ Longest (c :: rest) piece := by
  constructor
  · intro h
    refine ⟨spells_of_cut h, cut_append h, fun run token hrun hfront => ?_⟩
    obtain ⟨piece', hpiece, htaken, -⟩ := isTaken_of_prefix hrun hfront
    cases hpiece.symm.trans h
    exact htaken.length_le
  · intro h
    obtain ⟨piece', hpiece, htaken, htoken⟩ :=
      isTaken_of_prefix h.spells ⟨piece.rest, h.append_eq⟩
    have hwritten : piece'.written = piece.written := by
      refine (htaken.eq_of_length_le ?_).symm
      exact h.longest _ _ (spells_of_cut hpiece) ⟨piece'.rest, cut_append hpiece⟩
    have hrest : piece'.rest = piece.rest := by
      have happend := (cut_append hpiece).trans h.append_eq.symm
      rwa [hwritten, List.append_cancel_left_eq] at happend
    rw [hpiece]
    obtain ⟨token, written, rest'⟩ := piece
    obtain ⟨token', written', rest''⟩ := piece'
    cases hwritten
    cases hrest
    cases htoken rfl
    rfl

end Lexeme

namespace LexProblem

/-- What is wrong with a text of which no front is a lexeme. Its first character tells. -/
def ofFirst : Char → LexProblem
  | '"' => unterminatedText
  | '!' => loneExclamation
  | c => unexpected c

/-- The words in which a text is refused that starts with the character. -/
inductive Complaint : Char → String → Prop
  | quote : Complaint '"' "Unterminated string literal"
  | exclamation : Complaint '!' "Expected '=' after '!'"
  | other {c : Char} : c ≠ '"' → c ≠ '!' →
      Complaint c ("Unexpected character: '" ++ String.singleton c ++ "'")

theorem toList_message_unexpected (c : Char) :
    (unexpected c).message.toList = "Unexpected character: '".toList ++ c :: "'".toList := by
  show ("Unexpected character: '" ++ String.singleton c ++ "'").toList = _
  rw [String.toList_append, String.toList_append, String.toList_singleton, List.append_assoc]
  rfl

theorem message_injective : Function.Injective message := by
  have hconstant (c : Char) (text : String)
      (hfront : ¬ "Unexpected character: '".toList <+: text.toList) :
      (unexpected c).message ≠ text := by
    rintro rfl
    rw [toList_message_unexpected] at hfront
    exact hfront (List.prefix_append _ _)
  intro a b h
  cases a with
  | unterminatedText =>
      cases b with
      | unterminatedText => rfl
      | loneExclamation => exact absurd h (by decide)
      | unexpected c => exact absurd h.symm (hconstant c _ (by decide))
  | loneExclamation =>
      cases b with
      | unterminatedText => exact absurd h (by decide)
      | loneExclamation => rfl
      | unexpected c => exact absurd h.symm (hconstant c _ (by decide))
  | unexpected c =>
      cases b with
      | unterminatedText | loneExclamation => exact absurd h (hconstant c _ (by decide))
      | unexpected d =>
          have hlist := congrArg String.toList h
          rw [toList_message_unexpected, toList_message_unexpected, List.append_cancel_left_eq]
            at hlist
          rw [(List.cons.inj hlist).1]

theorem complaint_iff {c : Char} {text : String} :
    Complaint c text ↔ text = (ofFirst c).message := by
  constructor
  · intro h
    cases h with
    | quote => rfl
    | exclamation => rfl
    | other hquote hexclamation => rw [ofFirst] <;> first | rfl | assumption
  · rintro rfl
    unfold ofFirst
    split
    · exact .quote
    · exact .exclamation
    · next hquote hexclamation => exact .other hquote hexclamation

theorem complaint_message_iff {c : Char} {problem : LexProblem} :
    Complaint c problem.message ↔ problem = ofFirst c := by
  rw [complaint_iff, message_injective.eq_iff]

end LexProblem

namespace Lexeme

theorem problem_of_cut {c : Char} {rest : List Char} {problem : LexProblem}
    (h : cut c rest = .error problem) : problem = .ofFirst c := by
  unfold cut at h
  split at h
  · next hquote =>
      subst hquote
      split at h <;> cases h
      rfl
  split at h
  · cases h
  split at h
  · cases h
  · split at h <;> cases h
    · rfl
    · rw [LexProblem.ofFirst] <;> assumption

theorem cut_eq_error_iff {c : Char} {rest : List Char} {problem : LexProblem} :
    cut c rest = .error problem ↔
      (∀ run token, Spells run token → ¬ run <+: c :: rest) ∧ problem = .ofFirst c := by
  constructor
  · intro h
    refine ⟨fun run token hrun hfront => ?_, problem_of_cut h⟩
    obtain ⟨piece, hpiece, -⟩ := isTaken_of_prefix hrun hfront
    cases hpiece.symm.trans h
  · rintro ⟨hnone, rfl⟩
    cases h : cut c rest with
    | error problem => rw [problem_of_cut h]
    | ok piece => exact absurd ⟨piece.rest, cut_append h⟩ (hnone _ _ (spells_of_cut h))

theorem isSkipped_eq_false_of_longest {c : Char} {rest : List Char} {piece : Cut}
    (h : Longest (c :: rest) piece) : isSkipped c = false := by
  have hcut := cut_eq_ok_iff.2 h
  rw [← Bool.not_eq_true]
  intro hc
  simp only [isSkipped, Bool.or_eq_true, beq_iff_eq] at hc
  rcases hc with ((rfl | rfl) | rfl) | rfl <;> cases hcut

end Lexeme

end FileChores
