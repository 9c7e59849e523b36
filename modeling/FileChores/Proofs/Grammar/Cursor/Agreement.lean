import FileChores.Program.Parser
import FileChores.Proofs.Grammar.Cursor.Moves

/-!
# Reading by places and reading from a list

`Rereads` is what a step of the parser by places has to do for a step of the parser of lists: come
to its outcome wherever its input is left, and leave the place of what the outcome leaves. In
particular it does not go astray. The combinators follow the moves that steps are made of.

A phrase is read within a depth, and agrees when the depth is four times what is left and a little
more. So it is never too deep for a phrase over the tokens.
-/

namespace FileChores.Cursor

variable {α β γ : Type} {lexemes : Lexemes} {place next : Nat} {x : Lexeme}
  {input rest : List Lexeme}

/-- From a place on, reading comes to the outcome for what is left there, with the rest of the
outcome left, and does not go back. -/
def Agrees (lexemes : Lexemes) (place : Nat) (reading : Cursor α) :
    Except Stuck (α × List Lexeme) → Prop
  | .ok (value, rest) => ∃ next, place ≤ next ∧ At lexemes next rest ∧
      result reading lexemes place = some (.ok value, next)
  | .error stuck => ∃ next, place ≤ next ∧ At lexemes next stuck.rest ∧
      result reading lexemes place = some (.error (.wrong (stuck.error lexemes.finish)), next)

theorem Agrees.behind {reading : Cursor α} {value : α} {f : α → Cursor β}
    {outcome : Except Stuck (β × List Lexeme)}
    (hreading : result reading lexemes place = some (.ok value, next)) (hle : place ≤ next)
    (h : Agrees lexemes next (f value) outcome) :
    Agrees lexemes place (reading >>= f) outcome := by
  cases outcome with
  | ok parsed =>
      obtain ⟨last, hlast, hat, hresult⟩ := h
      exact ⟨last, Nat.le_trans hle hlast, hat, by rw [result_bind_ok hreading, hresult]⟩
  | error stuck =>
      obtain ⟨last, hlast, hat, hresult⟩ := h
      exact ⟨last, Nat.le_trans hle hlast, hat, by rw [result_bind_ok hreading, hresult]⟩

def Rereads (reading : Cursor α) (input : List Lexeme)
    (outcome : Except Stuck (α × List Lexeme)) : Prop :=
  ∀ lexemes place, At lexemes place input → Agrees lexemes place reading outcome

namespace Rereads

variable {outcome : Except Stuck (β × List Lexeme)} {yes no : Cursor β} {wanted : Token}
  {pos : Position}

protected theorem pure (value : α) (input : List Lexeme) :
    Rereads (pure value) input (.ok (value, input)) :=
  fun _ place h => ⟨place, Nat.le_refl place, h, rfl⟩

protected theorem fail (problem : ParseProblem) (input : List Lexeme) :
    Rereads (fail problem : Cursor α) input (.error ⟨problem, input⟩) :=
  fun _ place h => ⟨place, Nat.le_refl place, h, result_fail h problem⟩

protected theorem bind {reading : Cursor α} {f : α → Cursor β}
    {first : Except Stuck (α × List Lexeme)}
    {second : α × List Lexeme → Except Stuck (β × List Lexeme)}
    (h : Rereads reading input first)
    (hf : ∀ value rest, first = .ok (value, rest) → Rereads (f value) rest (second (value, rest))) :
    Rereads (reading >>= f) input (first >>= second) := by
  intro lexemes place hat
  have hfirst := h lexemes place hat
  cases first with
  | error stuck =>
      obtain ⟨next, hle, hnext, hresult⟩ := hfirst
      exact ⟨next, hle, hnext, result_bind_error hresult f⟩
  | ok parsed =>
      obtain ⟨next, hle, hnext, hresult⟩ := hfirst
      exact .behind hresult hle (hf parsed.1 parsed.2 rfl lexemes next hnext)

protected theorem map {reading : Cursor α} {first : Except Stuck (α × List Lexeme)}
    (h : Rereads reading input first) (g : α → β) :
    Rereads (reading >>= fun value => pure (g value)) input
      (first.map fun parsed => (g parsed.1, parsed.2)) := by
  have hbind : Rereads (reading >>= fun value => pure (g value)) input
      (first >>= fun parsed => .ok (g parsed.1, parsed.2)) :=
    h.bind fun value rest _ => .pure (g value) rest
  cases first <;> exact hbind

theorem stuck {reading : Cursor α} {stuck : Stuck} (h : Rereads reading input (.error stuck))
    (f : α → Cursor β) : Rereads (reading >>= f) input (.error stuck) := by
  intro lexemes place hat
  obtain ⟨next, hle, hnext, hresult⟩ := h lexemes place hat
  exact ⟨next, hle, hnext, result_bind_error hresult f⟩

theorem look {reading : Cursor α} {value : α} {f : α → Cursor β}
    (hlook : ∀ lexemes place, At lexemes place input →
      result reading lexemes place = some (.ok value, place))
    (h : Rereads (f value) input outcome) : Rereads (reading >>= f) input outcome :=
  fun lexemes place hat =>
    .behind (hlook lexemes place hat) (Nat.le_refl place) (h lexemes place hat)

theorem peek {f : Option Token × Position → Cursor β}
    (h : Rereads (f (some x.token, x.pos)) (x :: rest) outcome) :
    Rereads (peek >>= f) (x :: rest) outcome :=
  look (fun _ _ => result_peek) h

theorem peekAny {f : Option Token × Position → Cursor β}
    (h : ∀ lexemes : Lexemes, Rereads (f (front input lexemes.finish)) input outcome) :
    Rereads (Cursor.peek >>= f) input outcome :=
  fun lexemes place hat =>
    .behind (result_peek hat) (Nat.le_refl place) (h lexemes lexemes place hat)

theorem advance {f : Unit → Cursor β} (h : Rereads (f ()) rest outcome) :
    Rereads (advance >>= f) (x :: rest) outcome :=
  fun lexemes place hat =>
    .behind (result_advance hat) (Nat.le_succ place) (h lexemes (place + 1) hat.tail)

theorem check (h : Rereads yes (⟨wanted, pos⟩ :: rest) outcome) :
    Rereads (do if ← Cursor.check wanted then yes else no) (⟨wanted, pos⟩ :: rest) outcome :=
  look (fun _ _ => result_check_wanted) h

theorem check_other (hfixed : wanted.isFixed = true)
    (hother : ∀ pos rest, input ≠ ⟨wanted, pos⟩ :: rest) (h : Rereads no input outcome) :
    Rereads (do if ← Cursor.check wanted then yes else no) input outcome :=
  look (fun _ _ => result_check_other hfixed hother) h

theorem accept (h : Rereads yes rest outcome) :
    Rereads (do if ← Cursor.accept wanted then yes else no) (⟨wanted, pos⟩ :: rest) outcome :=
  fun lexemes place hat =>
    .behind (result_accept hat) (Nat.le_succ place) (h lexemes (place + 1) hat.tail)

theorem accept_other (hfixed : wanted.isFixed = true)
    (hother : ∀ pos rest, input ≠ ⟨wanted, pos⟩ :: rest) (h : Rereads no input outcome) :
    Rereads (do if ← Cursor.accept wanted then yes else no) input outcome :=
  look (fun _ _ => result_accept_other hfixed hother) h

theorem expect {f : Unit → Cursor β} (h : Rereads (f ()) rest outcome) (problem : ParseProblem) :
    Rereads (expect wanted problem >>= f) (⟨wanted, pos⟩ :: rest) outcome :=
  fun lexemes place hat =>
    .behind (result_expect hat problem) (Nat.le_succ place) (h lexemes (place + 1) hat.tail)

theorem expect_other (hfixed : wanted.isFixed = true)
    (hother : ∀ pos rest, input ≠ ⟨wanted, pos⟩ :: rest) (problem : ParseProblem)
    (f : Unit → Cursor β) :
    Rereads (Cursor.expect wanted problem >>= f) input (.error ⟨problem, input⟩) :=
  stuck (check_other hfixed hother (.fail problem input)) f

end Rereads

/-! ## Reading within a depth -/

/-- Reading agrees with an outcome within every depth that is enough for what is left. A phrase
needs up to three more when it begins with others. -/
def RereadsWithin (extra : Fin 4) (reading : Nat → Cursor α) (input : List Lexeme)
    (outcome : Except Stuck (α × List Lexeme)) : Prop :=
  ∀ depth, 4 * input.length + extra < depth → Rereads (reading depth) input outcome

namespace RereadsWithin

variable {reading : Nat → Cursor α} {outcome : Except Stuck (α × List Lexeme)}
  {extra more : Fin 4} {depth : Nat}

/-- There is always some depth left to go down. -/
theorem step (h : ∀ depth, 4 * input.length + extra ≤ depth →
    Rereads (reading (depth + 1)) input outcome) : RereadsWithin extra reading input outcome
  | 0, hdepth => absurd hdepth (Nat.not_lt_zero _)
  | depth + 1, hdepth => h depth (Nat.le_of_lt_succ hdepth)

theorem inside (h : RereadsWithin extra reading input outcome) (hextra : extra < more)
    (hdepth : 4 * input.length + more ≤ depth) : Rereads (reading depth) input outcome :=
  h depth (by omega)

theorem later (h : RereadsWithin extra reading rest outcome) (hlt : rest.length < input.length)
    (hdepth : 4 * input.length + more ≤ depth) : Rereads (reading depth) rest outcome :=
  h depth (by omega)

/-- The depth over the tokens is enough wherever reading starts. -/
theorem rereads (h : RereadsWithin extra reading input outcome) :
    Rereads (Cursor.depth >>= reading) input outcome := by
  intro lexemes place hat
  have hlength := congrArg List.length hat.drop
  have hdepth : 4 * input.length + extra < 4 * lexemes.slots.length := by
    simp only [List.length_drop] at hlength
    simp only [Lexemes.slots, List.length_append, List.length_map, List.length_singleton]
    omega
  exact .behind rfl (Nat.le_refl place) (h _ hdepth lexemes place hat)

end RereadsWithin

/-! ## Lists up to what closes them -/

def upTo (wanted : Token) (problem : ParseProblem) (phrases : Cursor (List γ)) :
    Cursor (List γ) := do
  let list ← phrases
  expect wanted problem
  return list

theorem upTo_test (wanted : Token) (problem : ParseProblem) (test : Cursor Bool)
    (yes no : Cursor (List γ)) :
    upTo wanted problem (do if ← test then yes else no) =
      (do if ← test then upTo wanted problem yes else upTo wanted problem no) := by
  simp only [upTo, bind_assoc]
  congr 1
  funext holds
  cases holds <;> rfl

theorem upTo_cons (wanted : Token) (problem : ParseProblem) (first : Cursor γ)
    (more : Cursor (List γ)) :
    upTo wanted problem (first >>= fun value => more >>= fun list => pure (value :: list)) =
      first >>= fun value => upTo wanted problem more >>= fun list => pure (value :: list) := by
  simp only [upTo, bind_assoc, pure_bind]

theorem Rereads.upTo_nil (wanted : Token) (problem : ParseProblem) (pos : Position)
    (rest : List Lexeme) :
    Rereads (upTo wanted problem (pure ([] : List γ))) (⟨wanted, pos⟩ :: rest)
      (.ok ([], rest)) := by
  rw [upTo, pure_bind]
  exact .expect (.pure [] rest) problem

theorem Rereads.upTo_nil_other {wanted : Token} (hfixed : wanted.isFixed = true)
    (hother : ∀ pos rest, input ≠ ⟨wanted, pos⟩ :: rest) (problem : ParseProblem) :
    Rereads (upTo wanted problem (pure ([] : List γ))) input (.error ⟨problem, input⟩) := by
  rw [upTo, pure_bind]
  exact .expect_other hfixed hother problem _

theorem Rereads.cons {first : Cursor γ} {more : Cursor (List γ)}
    {outcome : Except Stuck (γ × List Lexeme)}
    (hfirst : Rereads first input outcome)
    (outcomes : List Lexeme → Except Stuck (List γ × List Lexeme))
    (hmore : ∀ value rest, outcome = .ok (value, rest) → Rereads more rest (outcomes rest)) :
    Rereads (first >>= fun value => more >>= fun list => pure (value :: list)) input
      (outcome >>= fun parsed =>
        (outcomes parsed.2).map fun list => (parsed.1 :: list.1, list.2)) :=
  hfirst.bind fun value rest hvalue => (hmore value rest hvalue).map (value :: ·)

end FileChores.Cursor
