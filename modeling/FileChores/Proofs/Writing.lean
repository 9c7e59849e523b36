import FileChores.Proofs.Lexing

/-!
# Writing tokens

Every token has a way to be written. Tokens that are read back from what they are written as are
read back one by one when single spaces stand between them.
-/

namespace FileChores.Token

open Lexeme

def escape : List Char → List Char
  | [] => []
  | c :: rest => if c = '\\' ∨ c = '"' then '\\' :: c :: escape rest else c :: escape rest

def written : Token → String
  | number value => Number.text value
  | text content => .ofList ('"' :: escape content.toList ++ ['"'])
  | word name => name
  | varKeyword => "var"
  | ifKeyword => "if"
  | elseKeyword => "else"
  | forKeyword => "for"
  | plus => "+"
  | minus => "-"
  | equal => "=="
  | notEqual => "!="
  | less => "<"
  | greater => ">"
  | assign => "="
  | openParen => "("
  | closeParen => ")"
  | openBrace => "\x7b"
  | closeBrace => "\x7d"
  | comma => ","

def spaced (tokens : List Token) : String :=
  " ".intercalate (tokens.map written)

/-- What is written is cut off as the token again, whatever follows behind white space. -/
def ReadsBack (token : Token) : Prop :=
  ∃ c run, token.written.toList = c :: run ∧ isSkipped c ≠ true ∧
    ∀ after, Parted after → cut c (run ++ after) = .ok ⟨token, c :: run, after⟩

/-- A name is a word of the script that is no keyword. -/
def IsName (name : String) : Prop :=
  (∃ c run, name.toList = c :: run ∧ isWordStart c = true ∧ run.all isWordPart = true) ∧
    name ∉ ["var", "if", "else", "for"]

theorem ofWord_of_isName {name : String} (h : IsName name) : ofWord name = word name := by
  have hkeyword := h.2
  rw [ofWord] <;> rintro rfl <;> simp at hkeyword

theorem isName_or_keyword {c : Char} {run : List Char} (hc : isWordStart c = true)
    (hrun : run.all isWordPart = true) :
    IsName (.ofList (c :: run)) ∨ .ofList (c :: run) ∈ ["var", "if", "else", "for"] := by
  by_cases hkeyword : .ofList (c :: run) ∈ ["var", "if", "else", "for"]
  · exact .inr hkeyword
  · exact .inl ⟨⟨c, run, String.toList_ofList, hc, hrun⟩, hkeyword⟩

theorem isSkipped_ne_of_isWordPart {c : Char} (h : isWordPart c = true) : isSkipped c ≠ true := by
  intro hskipped
  rw [isWordPart_eq_false_of_isSkipped hskipped] at h
  cases h

theorem isWordPart_of_isWordStart {c : Char} (h : isWordStart c = true) : isWordPart c = true := by
  simp only [isWordStart, isWordPart, Bool.or_eq_true] at *
  exact h.imp .inl id

theorem readsBack_run {token : Token} {c : Char} {run : List Char}
    (hwritten : token.written.toList = c :: run) (hc : isWordStart c = true)
    (hrun : run.all isWordPart = true) (hword : ofWord token.written = token) :
    token.ReadsBack := by
  refine ⟨c, run, hwritten, isSkipped_ne_of_isWordPart (isWordPart_of_isWordStart hc), ?_⟩
  intro after hafter
  obtain ⟨htake, hdrop⟩ :=
    span_run hrun (hafter.stops fun _ => isWordPart_eq_false_of_isSkipped)
  rw [cut_word hc, htake, hdrop, ← hwritten, String.ofList_toList, hword]

theorem readsBack_word {name : String} (h : IsName name) : (word name).ReadsBack := by
  obtain ⟨c, run, hname, hc, hrun⟩ := h.1
  exact readsBack_run hname hc hrun (ofWord_of_isName h)

theorem untilQuote_escape (cs after : List Char) :
    untilQuote (escape cs ++ '"' :: after) = some (escape cs, after) := by
  induction cs with
  | nil => rfl
  | cons c cs ih =>
      rw [escape]
      split
      · simp [untilQuote, ih]
      · next hc =>
          rw [not_or] at hc
          rw [List.cons_append, untilQuote, ih]
          · rfl
          · exact hc.2
          · exact fun _ _ h => absurd h hc.1

theorem unescape_escape (cs : List Char) : unescape (escape cs) = cs := by
  induction cs with
  | nil => rfl
  | cons c cs ih =>
      rw [escape]
      split
      · rw [unescape, ih]
      · next hc =>
          rw [not_or] at hc
          rw [unescape, ih]
          exact fun _ _ h => absurd h hc.1

theorem readsBack_text (content : String) : (text content).ReadsBack := by
  refine ⟨'"', escape content.toList ++ ['"'], String.toList_ofList, by decide, ?_⟩
  intro after _
  rw [List.append_assoc, List.singleton_append, cut_quote (untilQuote_escape _ _),
    unescape_escape, String.ofList_toList]
  rfl

theorem readsBack_number {value : Float} {c : Char} {run : List Char}
    (htext : (Number.text value).toList = c :: run) (hdigits : (c :: run).all Char.isDigit = true)
    (hvalue : Number.ofDigits (c :: run) = value) : (number value).ReadsBack := by
  rw [List.all_cons, Bool.and_eq_true] at hdigits
  have hskipped : isSkipped c ≠ true := by
    intro h
    rw [isDigit_eq_false_of_isSkipped h] at hdigits
    cases hdigits.1
  refine ⟨c, run, htext, hskipped, ?_⟩
  intro after hafter
  obtain ⟨htake, hdrop⟩ :=
    span_run hdigits.2 (hafter.stops fun _ => isDigit_eq_false_of_isSkipped)
  rw [cut_digit hdigits.1, htake, hdrop, hvalue]

/-- The tokens that are written in one way only: keywords and signs. -/
def isFixed : Token → Bool
  | number _ | text _ | word _ => false
  | _ => true

theorem readsBack_of_isFixed {token : Token} (h : token.isFixed = true) : token.ReadsBack := by
  cases token with
  | number | text | word => cases h
  | varKeyword => exact readsBack_run (c := 'v') rfl (by decide) (by decide) rfl
  | ifKeyword => exact readsBack_run (c := 'i') rfl (by decide) (by decide) rfl
  | elseKeyword => exact readsBack_run (c := 'e') rfl (by decide) (by decide) rfl
  | forKeyword => exact readsBack_run (c := 'f') rfl (by decide) (by decide) rfl
  | assign =>
      refine ⟨'=', [], rfl, by decide, fun after hafter => cut_assign ?_⟩
      rintro c hc rfl
      exact absurd (hafter '=' hc) (by decide)
  | _ => exact ⟨_, _, rfl, by decide, fun _ _ => rfl⟩

theorem spaced_cons (first : Token) (rest : List Token) :
    (spaced (first :: rest)).toList =
      first.written.toList ++ rest.flatMap fun token => ' ' :: token.written.toList := by
  induction rest generalizing first with
  | nil => simp [spaced]
  | cons second rest ih =>
      have := ih second
      simp only [spaced, List.map_cons, String.intercalate_cons_cons, String.toList_append] at *
      rw [this]
      simp

theorem parted_flatMap (tokens : List Token) :
    Parted (tokens.flatMap fun token => ' ' :: token.written.toList) := by
  cases tokens with
  | nil => exact parted_nil
  | cons token rest => exact parted_space _

end FileChores.Token

namespace FileChores.Lexemes

open Lexeme Token

def tokens (lexemes : Lexemes) : List Token :=
  lexemes.list.map (·.token)

theorem scan_written {token : Token} (h : token.ReadsBack) {after : List Char}
    (hafter : Parted after) (here : Position) :
    scan here (token.written.toList ++ after) =
      (scan (here.after token.written.toList) after).map (behind [⟨token, here⟩]) := by
  obtain ⟨c, run, hwritten, hc, hcut⟩ := h
  rw [hwritten]
  exact scan_cut hc (hcut after hafter)

theorem scan_flatMap {tokens : List Token} (h : ∀ token ∈ tokens, token.ReadsBack)
    (here : Position) :
    ∃ lexemes, scan here (tokens.flatMap fun token => ' ' :: token.written.toList) = .ok lexemes ∧
      lexemes.tokens = tokens := by
  induction tokens generalizing here with
  | nil => exact ⟨⟨[], here⟩, by rw [List.flatMap_nil, scan], rfl⟩
  | cons token rest ih =>
      rw [List.forall_mem_cons] at h
      obtain ⟨later, hlater, htokens⟩ := ih h.2 ((here.advance ' ').after token.written.toList)
      refine ⟨behind [⟨token, here.advance ' '⟩] later, ?_, ?_⟩
      · rw [List.flatMap_cons, List.cons_append, scan_skipped rfl,
          scan_written h.1 (parted_flatMap rest), hlater]
        rfl
      · rw [← htokens]
        rfl

/-- Tokens that read back one by one read back with spaces between them. -/
theorem ofSource_spaced {tokens : List Token} (h : ∀ token ∈ tokens, token.ReadsBack) :
    ∃ lexemes, ofSource (spaced tokens) = .ok lexemes ∧ lexemes.tokens = tokens := by
  unfold ofSource
  cases tokens with
  | nil =>
      refine ⟨⟨[], .start⟩, ?_, rfl⟩
      rw [spaced, List.map_nil, String.intercalate_nil]
      simp [scan]
  | cons first rest =>
      rw [List.forall_mem_cons] at h
      obtain ⟨later, hlater, htokens⟩ :=
        scan_flatMap h.2 (Position.start.after first.written.toList)
      refine ⟨behind [⟨first, .start⟩] later, ?_, ?_⟩
      · rw [spaced_cons, scan_written h.1 (parted_flatMap rest), hlater]
        rfl
      · rw [← htokens]
        rfl

end FileChores.Lexemes
