import FileChores.Proofs.Grammar.Cursor
import FileChores.Proofs.Writing

/-!
# Single moves of the parser by places

At a place within the tokens each move is told by what is left there: the token in front decides
what is seen, and a move by one place leaves what is behind it.
-/

namespace FileChores

def front (rest : List Lexeme) (finish : Position) : Option Token × Position :=
  match rest with
  | [] => (none, finish)
  | x :: _ => (some x.token, x.pos)

theorem Stuck.error_eq (problem : ParseProblem) (rest : List Lexeme) (finish : Position) :
    Stuck.error ⟨problem, rest⟩ finish =
      ⟨problem, (front rest finish).1, (front rest finish).2⟩ := by
  cases rest <;> rfl

namespace Token

theorem eq_of_ctorIdx_eq {token wanted : Token} (hfixed : wanted.isFixed = true)
    (h : token.ctorIdx = wanted.ctorIdx) : token = wanted := by
  cases wanted with
  | number value => cases hfixed
  | text content => cases hfixed
  | word name => cases hfixed
  | _ => cases token <;> first | rfl | cases h

end Token

namespace Cursor

variable {α β γ : Type} {lexemes : Lexemes} {place next : Nat} {x : Lexeme}
  {input rest : List Lexeme}

/-! ## Places -/

structure At (lexemes : Lexemes) (place : Nat) (rest : List Lexeme) : Prop where
  le : place ≤ lexemes.list.length
  drop : lexemes.list.drop place = rest

namespace At

theorem slot (h : At lexemes place rest) :
    lexemes.slots[place]? = some (front rest lexemes.finish) := by
  obtain ⟨hle, rfl⟩ := h
  rw [Lexemes.slots]
  by_cases hlt : place < lexemes.list.length
  · rw [List.getElem?_append_left (by simpa using hlt), List.getElem?_map,
      List.getElem?_eq_getElem hlt, List.drop_eq_getElem_cons hlt]
    rfl
  · obtain rfl : place = lexemes.list.length := by omega
    rw [List.getElem?_append_right (by simp), List.drop_length]
    simp [front]

theorem tail (h : At lexemes place (x :: rest)) : At lexemes (place + 1) rest := by
  have hlength := congrArg List.length h.drop
  simp only [List.length_drop, List.length_cons] at hlength
  exact ⟨by omega, by rw [← List.drop_drop, h.drop]; rfl⟩

theorem place_eq (h : At lexemes place rest) : place = lexemes.list.length - rest.length := by
  have hle := h.le
  rw [← h.drop, List.length_drop]
  omega

theorem lt_length_slots (h : At lexemes place rest) : place < lexemes.slots.length := by
  have hle := h.le
  simp only [Lexemes.slots, List.length_append, List.length_map, List.length_singleton]
  omega

end At

/-! ## Single moves -/

def result (reading : Cursor α) (lexemes : Lexemes) (place : Nat) :
    Option (Except Misreading α × Nat) :=
  ((reading.run lexemes).run).run place

theorem result_bind_ok {reading : Cursor α} {value : α}
    (h : result reading lexemes place = some (.ok value, next)) (f : α → Cursor β) :
    result (reading >>= f) lexemes place = result (f value) lexemes next := by
  simp only [result, ReaderT.run_bind, ExceptT.run_bind, StateT.run_bind] at h ⊢
  rw [h]
  rfl

theorem result_bind_error {reading : Cursor α} {stop : Misreading}
    (h : result reading lexemes place = some (.error stop, next)) (f : α → Cursor β) :
    result (reading >>= f) lexemes place = some (.error stop, next) := by
  simp only [result, ReaderT.run_bind, ExceptT.run_bind, StateT.run_bind] at h ⊢
  rw [h]
  rfl

theorem result_slotAt (h : At lexemes next rest) (place : Nat) :
    result (slotAt next) lexemes place = some (.ok (front rest lexemes.finish), place) := by
  have hread : result read lexemes place = some (.ok lexemes, place) := rfl
  rw [slotAt, result_bind_ok hread, h.slot]
  rfl

theorem result_peek (h : At lexemes place rest) :
    result peek lexemes place = some (.ok (front rest lexemes.finish), place) :=
  result_slotAt h place

theorem result_previous (h : At lexemes place rest) :
    result previous lexemes (place + 1) =
      some (.ok (front rest lexemes.finish), place + 1) :=
  result_slotAt h (place + 1)

theorem result_ahead (h : At lexemes place (x :: rest)) :
    result ahead lexemes place = some (.ok (some (front rest lexemes.finish)), place) := by
  show some (Except.ok lexemes.slots[place + 1]?, place) = _
  rw [h.tail.slot]

theorem result_atEnd (h : At lexemes place rest) :
    result atEnd lexemes place = some (.ok rest.isEmpty, place) := by
  rw [atEnd, result_bind_ok (result_peek h)]
  cases rest <;> rfl

theorem result_advance (h : At lexemes place (x :: rest)) :
    result advance lexemes place = some (.ok (), place + 1) := by
  have hgoTo : result (goTo (place + 1)) lexemes place = some (.ok (), place + 1) := by
    show result (if place ≤ place + 1 ∧ place + 1 < lexemes.slots.length then set (place + 1)
      else throw .astray) lexemes place = _
    rw [if_pos ⟨Nat.le_succ place, h.tail.lt_length_slots⟩]
    rfl
  rw [advance, result_bind_ok (result_atEnd h)]
  show result (goTo (place + 1) >>= fun _ => discard previous) lexemes place = _
  rw [result_bind_ok hgoTo]
  show result (previous >>= fun _ => pure ()) lexemes (place + 1) = _
  rw [result_bind_ok (result_previous h)]
  rfl

theorem isLike_front (wanted : Token) (pos : Position) (rest : List Lexeme)
    (finish : Position) : isLike wanted (front (⟨wanted, pos⟩ :: rest) finish).1 = true := by
  simp [isLike, front]

theorem isLike_front_other {wanted : Token} (hfixed : wanted.isFixed = true)
    (hother : ∀ pos rest, input ≠ ⟨wanted, pos⟩ :: rest) (finish : Position) :
    isLike wanted (front input finish).1 = false := by
  cases input with
  | nil => rfl
  | cons x rest =>
      have hkind : x.token.ctorIdx ≠ wanted.ctorIdx := fun hkind =>
        hother x.pos rest (by rw [← Token.eq_of_ctorIdx_eq hfixed hkind])
      simp [isLike, front, hkind]

theorem result_check (h : At lexemes place rest) (wanted : Token) :
    result (check wanted) lexemes place =
      some (.ok (isLike wanted (front rest lexemes.finish).1), place) := by
  rw [check, result_bind_ok (result_peek h)]
  rfl

theorem result_check_wanted {wanted : Token} {pos : Position}
    (h : At lexemes place (⟨wanted, pos⟩ :: rest)) :
    result (check wanted) lexemes place = some (.ok true, place) := by
  rw [result_check h, isLike_front]

theorem result_check_other {wanted : Token} (hfixed : wanted.isFixed = true)
    (hother : ∀ pos rest, input ≠ ⟨wanted, pos⟩ :: rest) (h : At lexemes place input) :
    result (check wanted) lexemes place = some (.ok false, place) := by
  rw [result_check h, isLike_front_other hfixed hother]

theorem result_accept {wanted : Token} {pos : Position}
    (h : At lexemes place (⟨wanted, pos⟩ :: rest)) :
    result (accept wanted) lexemes place = some (.ok true, place + 1) := by
  rw [accept, result_bind_ok (result_check_wanted h), if_pos rfl,
    result_bind_ok (result_advance h)]
  rfl

theorem result_accept_other {wanted : Token} (hfixed : wanted.isFixed = true)
    (hother : ∀ pos rest, input ≠ ⟨wanted, pos⟩ :: rest) (h : At lexemes place input) :
    result (accept wanted) lexemes place = some (.ok false, place) := by
  rw [accept, result_bind_ok (result_check_other hfixed hother h)]
  rfl

theorem result_expect {wanted : Token} {pos : Position}
    (h : At lexemes place (⟨wanted, pos⟩ :: rest)) (problem : ParseProblem) :
    result (expect wanted problem) lexemes place = some (.ok (), place + 1) := by
  rw [expect, result_bind_ok (result_check_wanted h), if_pos rfl, result_advance h]

theorem result_fail (h : At lexemes place rest) (problem : ParseProblem) :
    result (fail problem : Cursor α) lexemes place =
      some (.error (.wrong (Stuck.error ⟨problem, rest⟩ lexemes.finish)), place) := by
  rw [fail, result_bind_ok (result_peek h), Stuck.error_eq]
  rfl

end Cursor

end FileChores
