import FileChores.Proofs.Lexing
import FileChores.Proofs.Run.Moving
import Std.Data.String.ToNat

/-!
# What messages tell

Two messages that differ in their places at most are the same only when they name the same place:
the line and the column of an error of the source, the line of a fault. The message and the fields
of an event tell which event it is, and what it is about.
-/

namespace FileChores

theorem repr_append_inj {m n : Nat} {c : Char} (hc : c.isDigit = false) {s t : List Char}
    (h : m.repr.toList ++ c :: s = n.repr.toList ++ c :: t) : m = n ∧ s = t := by
  have hall : ∀ k : Nat, k.repr.toList.all Char.isDigit = true := by
    intro k
    rw [Nat.toList_repr, List.all_eq_true]
    exact fun _ => Nat.isDigit_of_mem_toDigits (by decide) (by decide)
  have hstop : ∀ (rest : List Char), ∀ d ∈ (c :: rest).head?, d.isDigit = false := by
    rintro rest d hd
    cases hd
    exact hc
  obtain ⟨htake, hdrop⟩ := Lexeme.span_run (hall m) (hstop s)
  obtain ⟨htake', hdrop'⟩ := Lexeme.span_run (hall n) (hstop t)
  rw [h] at htake hdrop
  have hdigits : m.repr = n.repr := String.toList_inj.1 (htake.symm.trans htake')
  exact ⟨Nat.repr_inj.1 hdigits, (List.cons.inj (hdrop.symm.trans hdrop')).2⟩

namespace Position

theorem toList_describe (here : Position) :
    here.describe.toList = "line ".toList ++
      (here.line.repr.toList ++ ',' :: (" column ".toList ++ here.column.repr.toList)) := by
  simp [describe, toString]

theorem describe_inj {here there : Position} (h : here.describe = there.describe) :
    here = there := by
  have hlist := congrArg String.toList h
  rw [toList_describe, toList_describe] at hlist
  obtain ⟨hline, hrest⟩ := repr_append_inj (by decide) (List.append_cancel_left hlist)
  have hcolumn := String.toList_inj.1 (List.append_cancel_left hrest)
  exact congr (congrArg mk hline) (Nat.repr_inj.1 hcolumn)

end Position

theorem SourceError.message_eq_iff {e e' : SourceError} (h : e.detail = e'.detail) :
    e.message = e'.message ↔ e.pos = e'.pos := by
  constructor
  · intro hmessage
    have hfront : "Parse error at " ++ e.pos.describe ++ ": " ++ e.detail =
        "Parse error at " ++ e'.pos.describe ++ ": " ++ e'.detail := hmessage
    rw [h, String.append_left_inj, String.append_left_inj, String.append_right_inj] at hfront
    exact Position.describe_inj hfront
  · intro hpos
    show "Parse error at " ++ e.pos.describe ++ ": " ++ e.detail = _
    rw [h, hpos]
    rfl

namespace Fault

theorem line_eq_of_message {f : Position → Position} {fault : Fault}
    (h : (fault.moved f).message = fault.message) : (f fault.pos).line = fault.pos.line := by
  cases fault with
  | textSubtraction left right here =>
      have hfront : "Invalid subtraction at line " ++ (f here).line.repr ++ ": " ++ _ =
          "Invalid subtraction at line " ++ here.line.repr ++ ": " ++ _ := h
      rw [String.append_left_inj, String.append_left_inj, String.append_right_inj] at hfront
      exact Nat.repr_inj.1 hfront
  | argumentCount command given here =>
      exact Nat.repr_inj.1 ((String.append_right_inj _).1 h)
  | loopLimit limit here => exact Nat.repr_inj.1 ((String.append_right_inj _).1 h)

/-- Of its place a fault tells the line and nothing else. -/
theorem message_eq_of_line {f : Position → Position} {fault : Fault}
    (h : (f fault.pos).line = fault.pos.line) : (fault.moved f).message = fault.message := by
  cases fault with
  | textSubtraction left right here | argumentCount command given here | loopLimit limit here =>
      rw [moved]
      change (f here).line = here.line at h
      generalize f here = there at h
      obtain ⟨line, column⟩ := here
      obtain ⟨_, column'⟩ := there
      cases h
      rfl

theorem message_moved_eq_iff (f : Position → Position) (fault : Fault) :
    (fault.moved f).message = fault.message ↔ (f fault.pos).line = fault.pos.line :=
  ⟨line_eq_of_message, message_eq_of_line⟩

end Fault

/-! ## Events -/

theorem Comparison.symbol_inj {op op' : Comparison} (h : op.symbol = op'.symbol) : op = op' := by
  cases op <;> cases op' <;> first | rfl | exact absurd h (by decide)

namespace Event

/-- The same event with the same data, as far as events are told: of most places the line, of
arguments how many there are, and the texts of values and failures. -/
def ToldAlike : Event → Event → Prop
  | parsed n, parsed n' | running n, running n' | finished n, finished n' | copied n, copied n' =>
      n = n'
  | aborted fault, aborted fault' => fault.message = fault'.message
  | statement pos, statement pos' => pos = pos'
  | assigned name value, assigned name' value' => name = name' ∧ value.toText = value'.toText
  | compared left op right result, compared left' op' right' result' =>
      left.toText = left'.toText ∧ op = op' ∧ right.toText = right'.toText ∧ result = result'
  | dispatched command args pos, dispatched command' args' pos' =>
      command = command' ∧ args.length = args'.length ∧ pos.line = pos'.line
  | copiedInstead source target cause, copiedInstead source' target' cause' =>
      source = source' ∧ target = target' ∧ cause.message = cause'.message
  | waitCapped requested cap pos, waitCapped requested' cap' pos' =>
      requested = requested' ∧ cap = cap' ∧ pos.line = pos'.line
  | commandFailed command e pos, commandFailed command' e' pos' =>
      command = command' ∧ e.message = e'.message ∧ pos.line = pos'.line
  | loopLimitReached n pos, loopLimitReached n' pos'
  | loopFinished n pos, loopFinished n' pos' => n = n' ∧ pos.line = pos'.line
  | _, _ => False

/-- In the order of the events. -/
def messages : List String :=
  ["parsed script", "running script", "script finished", "script aborted", "statement", "assign",
    "condition", "dispatch", "copied", "rename failed, copying instead", "wait capped",
    "command failed", "loop limit reached", "loop finished"]

theorem idxOf_message (e : Event) : messages.idxOf e.message = e.ctorIdx := by
  cases e <;> rfl

theorem kind_eq_of_message {e e' : Event} (h : e.message = e'.message) :
    e.ctorIdx = e'.ctorIdx := by
  rw [← idxOf_message, h, idxOf_message]

theorem kind_eq_of_toldAlike {e e' : Event} (h : e.ToldAlike e') : e.ctorIdx = e'.ctorIdx := by
  cases e <;> cases e' <;> first | rfl | cases h

theorem fields_eq_iff {e e' : Event} (hkind : e.ctorIdx = e'.ctorIdx) :
    e.fields = e'.fields ↔ e.ToldAlike e' := by
  have hcommand {command command' : Command} :
      command.name = command'.name ↔ command = command' := ⟨Command.name_inj, congrArg _⟩
  have hsymbol {op op' : Comparison} : op.symbol = op'.symbol ↔ op = op' :=
    ⟨Comparison.symbol_inj, congrArg _⟩
  have hresult {result result' : Bool} :
      ((if result then "true" else "false") = if result' then "true" else "false") ↔
        result = result' := by
    cases result <;> cases result' <;> decide
  have hpos {pos pos' : Position} : pos.line = pos'.line ∧ pos.column = pos'.column ↔ pos = pos' :=
    ⟨fun h => congr (congrArg Position.mk h.1) h.2, fun h => h ▸ ⟨rfl, rfl⟩⟩
  cases e <;> cases e' <;> cases hkind <;>
    simp [fields, ToldAlike, hcommand, hsymbol, hresult, hpos]

/-- Two events are told in the same words just when they are the same event with the same data. -/
theorem told_iff {e e' : Event} :
    e.message = e'.message ∧ e.fields = e'.fields ↔ e.ToldAlike e' := by
  constructor
  · rintro ⟨hmessage, hfields⟩
    exact (fields_eq_iff (kind_eq_of_message hmessage)).1 hfields
  · intro h
    have hkind := kind_eq_of_toldAlike h
    refine ⟨?_, (fields_eq_iff hkind).2 h⟩
    cases e <;> cases e' <;> first | rfl | cases hkind

end Event

end FileChores
