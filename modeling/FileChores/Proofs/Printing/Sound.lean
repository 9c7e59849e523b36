import FileChores.Proofs.Number.Whole
import FileChores.Proofs.Writing

/-!
# Tokens of a script

The names among the tokens of a script are words and no keywords, and its numbers are whole, but for
those that are too long for a double. All such tokens are read back from what they are written as.
-/

namespace FileChores.Token

open Lexeme

/-- A token that a script can have, its number in the range of a double. -/
def Sound : Token → Prop
  | number value => Number.IsWhole value
  | word name => IsName name
  | _ => True

theorem Sound.readsBack {token : Token} (h : token.Sound) : token.ReadsBack := by
  cases token with
  | number value =>
      obtain ⟨c, run, htext, hdigits, hvalue⟩ := Number.IsWhole.text_digits h
      exact readsBack_number htext hdigits hvalue
  | text content => exact readsBack_text content
  | word name => exact readsBack_word h
  | _ => exact readsBack_of_isFixed rfl

theorem sound_ofWord {c : Char} {run : List Char} (hc : isWordStart c = true)
    (hrun : run.all isWordPart = true) : (ofWord (.ofList (c :: run))).Sound := by
  rcases isName_or_keyword hc hrun with h | h
  · rw [ofWord_of_isName h]
    exact h
  · simp only [List.mem_cons, List.not_mem_nil, or_false] at h
    rcases h with h | h | h | h <;> simp only [h, ofWord, Sound]

theorem sound_of_cut {c : Char} {rest : List Char} {piece : Cut} (h : cut c rest = .ok piece)
    (hrange : ∀ value, piece.token = .number value → value.isInf = false) :
    piece.token.Sound := by
  unfold cut at h
  split at h
  · split at h <;> cases h
    trivial
  split at h
  · cases h
    exact (Number.isInf_or_isWhole_ofDigits _).resolve_left (by simp [hrange _ rfl])
  split at h
  · next hword =>
      cases h
      exact sound_ofWord hword List.all_takeWhile
  · split at h <;> cases h <;> trivial

end FileChores.Token

namespace FileChores.Lexemes

open Lexeme

def InRange (lexemes : Lexemes) : Prop :=
  ∀ lexeme ∈ lexemes.list, ∀ value, lexeme.token = .number value → value.isInf = false

theorem sound_of_scan {here : Position} {cs : List Char} {lexemes : Lexemes}
    (h : scan here cs = .ok lexemes) (hrange : lexemes.InRange) :
    ∀ lexeme ∈ lexemes.list, lexeme.token.Sound := by
  fun_induction scan here cs generalizing lexemes with
  | case1 here =>
      cases h
      exact fun _ hmem => absurd hmem List.not_mem_nil
  | case2 here c rest hc ih => exact ih h hrange
  | case3 => cases h
  | case4 here c rest hc piece hcut ih =>
      cases hlater : scan (here.after piece.written) piece.rest with
      | error e => rw [hlater] at h; cases h
      | ok later =>
          rw [hlater] at h
          cases h
          rw [InRange, List.forall_mem_cons] at hrange
          rw [List.forall_mem_cons]
          exact ⟨Token.sound_of_cut hcut hrange.1, ih hlater hrange.2⟩

end FileChores.Lexemes
