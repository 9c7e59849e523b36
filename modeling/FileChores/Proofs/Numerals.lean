import FileChores.Proofs.Lexing
import FileChores.Proofs.Number.Exact
import FileChores.Proofs.Run.Calling

/-!
# Natural numbers from text to text

A natural number comes into a run as a run of digits or as the answer to a query, and goes out as a
text. Up to `2 ^ 53` it is the same number both ways in, and the way out is its decimal numeral.
-/

namespace FileChores

/-- The characters are digits that stand for the number, with zeros in front or without. -/
structure Number.Denotes (digits : List Char) (n : Nat) : Prop where
  nonempty : digits ≠ []
  isDigit : digits.all Char.isDigit = true
  value : Nat.ofDigitChars 10 digits 0 = n

namespace Lexemes

open Lexeme

theorem scan_digits {digits : List Char} {n : Nat} (h : Number.Denotes digits n)
    {rest : List Char} (hrest : ∀ c ∈ rest.head?, c.isDigit = false) (here : Position) :
    scan here (digits ++ rest) =
      (scan (here.after digits) rest).map (behind [⟨.number (Float.ofNat n), here⟩]) := by
  obtain ⟨hne, hdigits, hvalue⟩ := h
  obtain ⟨c, run, rfl⟩ := List.exists_cons_of_ne_nil hne
  rw [List.all_cons, Bool.and_eq_true] at hdigits
  obtain ⟨hc, hrun⟩ := hdigits
  have hskipped : isSkipped c ≠ true := by
    intro hskipped
    rw [isDigit_eq_false_of_isSkipped hskipped] at hc
    cases hc
  obtain ⟨htake, hdrop⟩ := span_run hrun hrest
  rw [List.cons_append, scan_cut hskipped (cut_digit hc _), htake, hdrop, Number.ofDigits, hvalue]

end Lexemes

namespace Comparison

theorem equal_number_text (x : Float) (content : String) :
    equal.holds (.number x) (.text content) = true ↔ Number.text x = content := by
  simp [holds, Value.order?, Value.toText]

theorem equal_text_number (x : Float) (content : String) :
    equal.holds (.text content) (.number x) = true ↔ content = Number.text x := by
  simp [holds, Value.order?, Value.toText]

end Comparison

namespace Run

variable {σ : Type}

theorem result_call_granted (s : Setting σ) (command : Command) {args : List Value}
    {request : Request} (h : Action.ofCall? command args = some (.ask request)) (pos : Position)
    (m : Machine σ) {reply : request.Reply}
    (hreply : (s.files.answer request m.files).1.result = .ok reply) :
    ∃ events, result (call s command args pos) m = (.ok (request.value reply),
      m.advance events ((request.confirmation reply).map (⟨·, .output, pos⟩))
        (s.files.answer request m.files).2) := by
  obtain ⟨events, -, hresult⟩ := result_call_ask s h pos m
  rw [Exchange.value, Exchange.lines, hreply] at hresult
  exact ⟨_, hresult⟩

end Run

/-- Up to `2 ^ 53` a natural number is one number of a script, however it is spelled and whichever
query it answers, and everything that makes a text of it makes its decimal numeral. -/
theorem Value.ofNat_keeps_numeral {n : Nat} (hn : n ≤ 2 ^ 53) :
    (Float.ofNat n).isFinite = true ∧ Number.exact (Float.ofNat n) = n ∧
    (∀ digits rest here, Number.Denotes digits n → (∀ c ∈ rest.head?, c.isDigit = false) →
      Lexemes.scan here (digits ++ rest) = (Lexemes.scan (here.after digits) rest).map
        (Lexemes.behind [⟨.number (Float.ofNat n), here⟩])) ∧
    (∀ (σ : Type) (s : Setting σ) (path : Value) (pos : Position) (m : Machine σ),
      ((s.files.answer (.count path.toText) m.files).1.result = .ok n →
        ∃ events, Run.result (Run.call s .countFiles [path] pos) m =
          (.ok (some (.number (Float.ofNat n))), m.advance events
            [⟨s!"Files in {path.toText}: {(number (Float.ofNat n)).toText}", .output, pos⟩]
            (s.files.answer (.count path.toText) m.files).2)) ∧
      ((s.files.answer (.space path.toText) m.files).1.result = .ok n →
        ∃ events, Run.result (Run.call s .checkSpace [path] pos) m =
          (.ok (some (.number (Float.ofNat n))), m.advance events
            [⟨s!"Space used by {path.toText}: {(number (Float.ofNat n)).toText} bytes", .output,
              pos⟩]
            (s.files.answer (.space path.toText) m.files).2))) ∧
    (number (Float.ofNat n)).toText = toString n ∧
    ∀ content : String,
      (text content).add (number (Float.ofNat n)) = text (content ++ toString n) ∧
      (number (Float.ofNat n)).add (text content) = text (toString n ++ content) ∧
      (Comparison.equal.holds (text content) (number (Float.ofNat n)) = true ↔
        content = toString n) ∧
      (Comparison.equal.holds (number (Float.ofNat n)) (text content) = true ↔
        content = toString n) := by
  have htext : (number (Float.ofNat n)).toText = toString n := Number.text_ofNat hn
  refine ⟨Number.isFinite_ofNat hn, Number.exact_ofNat hn, ?_, ?_, htext, fun content => ?_⟩
  · exact fun digits rest here hdigits hrest => Lexemes.scan_digits hdigits hrest here
  · intro σ s path pos m
    rw [htext]
    exact ⟨Run.result_call_granted s .countFiles rfl pos m,
      Run.result_call_granted s .checkSpace rfl pos m⟩
  · refine ⟨?_, ?_, ?_, ?_⟩
    · rw [← htext]
      rfl
    · rw [← htext]
      rfl
    · rw [Comparison.equal_text_number, Number.text_ofNat hn]
    · rw [Comparison.equal_number_text, Number.text_ofNat hn, eq_comm]

/-- The greatest of these numbers, with zeros in front. -/
theorem Value.ofNat_keeps_numeral_limit :
    Lexemes.scan .start "0009007199254740992".toList =
      .ok ⟨[⟨.number (Float.ofNat (2 ^ 53)), .start⟩], ⟨1, 20⟩⟩ ∧
    (text "n = ").add (number (Float.ofNat (2 ^ 53))) = text "n = 9007199254740992" := by
  obtain ⟨-, -, hscan, -, -, htexts⟩ := ofNat_keeps_numeral (n := 2 ^ 53) (Nat.le_refl _)
  refine ⟨?_, (htexts "n = ").1⟩
  have h := hscan "0009007199254740992".toList [] .start ⟨by decide, by decide, by decide⟩
    (fun _ hc => nomatch hc)
  rw [List.append_nil, Lexemes.scan] at h
  exact h

end FileChores
