import Mathlib.Data.List.Perm.Basic
import FileChores.CommandLine
import FileChores.Proofs.Numerals

/-!
# The arguments of a call

A list of arguments is read item by item: an option with the argument behind it, the option without
a value, or the script. A list is accepted where it is nothing but items and one of them is the
script, and is otherwise rejected for what stands behind the longest run of items in front.
-/

namespace FileChores.CommandLine

/-! ## Items -/

/-- The argument spells the number: decimal digits, with or without a plus sign, for a number that
fits a 64-bit word. -/
def Numeral (argument : String) (n : Nat) : Prop :=
  ∃ digits, Number.Denotes digits n ∧
    (argument.toList = digits ∨ argument.toList = '+' :: digits) ∧ n ≤ 2 ^ 64 - 1

def Dashed (argument : String) : Prop :=
  "--".toList <+: argument.toList

instance : DecidablePred Dashed :=
  fun argument => inferInstanceAs (Decidable ("--".toList <+: argument.toList))

inductive LimitOption
  | iterations
  | wait
  deriving DecidableEq

namespace LimitOption

def name : LimitOption → String
  | iterations => "--max-iterations"
  | wait => "--max-wait"

def noun : LimitOption → String
  | iterations => "iteration"
  | wait => "wait"

def of (limits : Limits) : LimitOption → Option Nat
  | iterations => limits.maxIterations
  | wait => limits.maxWait

def set (limits : Limits) (n : Nat) : LimitOption → Limits
  | iterations => { limits with maxIterations := n }
  | wait => { limits with maxWait := n }

def bad (value : String) : LimitOption → UsageError
  | iterations => .badIterations value
  | wait => .badWait value

end LimitOption

inductive Item
  | limit (option : LimitOption) (value : String) (n : Nat) (numeral : Numeral value n)
  | plain
  | script (path : String) (undashed : ¬ Dashed path)

def Item.words : Item → List String
  | limit option value _ _ => [option.name, value]
  | plain => ["--no-color"]
  | script path _ => [path]

/-- The arguments that spell the items. The argument behind an option with a value belongs to that
option, whatever it looks like. -/
def words (items : List Item) : List String :=
  items.flatMap Item.words

def Item.value? (option : LimitOption) : Item → Option Nat
  | limit option' _ n _ => if option' = option then some n else none
  | plain | script _ _ => none

def Item.script? : Item → Option String
  | script path _ => some path
  | limit _ _ _ _ | plain => none

def values (option : LimitOption) (items : List Item) : List Nat :=
  items.filterMap (Item.value? option)

def scripts (items : List Item) : List String :=
  items.filterMap Item.script?

/-- What the items say together. -/
structure Means (items : List Item) (invocation : Invocation) : Prop where
  script : scripts items = [invocation.script]
  limit (option : LimitOption) : option.of invocation.limits = (values option items).getLast?
  color : invocation.color = false ↔ .plain ∈ items

/-- No item that may stand behind `earlier` scripts begins here, and the text tells why. -/
inductive Wrong (earlier : List String) : List String → String → Prop
  | missing (option : LimitOption) : Wrong earlier [option.name] s!"{option.name} needs a value"
  | value (option : LimitOption) (value : String) (rest : List String)
      (h : ∀ n, ¬ Numeral value n) :
      Wrong earlier (option.name :: value :: rest) s!"invalid {option.noun} limit '{value}'"
  | unknown (argument : String) (rest : List String) (h : Dashed argument)
      (hlimit : ∀ option, argument ≠ LimitOption.name option) (hplain : argument ≠ "--no-color") :
      Wrong earlier (argument :: rest) s!"unknown option '{argument}'"
  | unexpected (argument : String) (rest : List String) (h : ¬ Dashed argument)
      (hearlier : earlier ≠ []) :
      Wrong earlier (argument :: rest) s!"unexpected argument '{argument}'"

/-! ## Words -/

def unsigned (argument : String) : List Char :=
  match argument.toList with
  | '+' :: digits => digits
  | digits => digits

theorem numeral_iff_unsigned {argument : String} {n : Nat} :
    Numeral argument n ↔ Number.Denotes (unsigned argument) n ∧ n ≤ 2 ^ 64 - 1 := by
  have hplus (digits : List Char) : ¬ Number.Denotes ('+' :: digits) n := by
    intro h
    have hdigit := h.isDigit
    simp at hdigit
  rw [unsigned, Numeral]
  split
  case h_1 digits hargument =>
      rw [hargument]
      constructor
      · rintro ⟨digits', hdigits, rfl | h, hn⟩
        · cases hplus _ hdigits
        · cases h
          exact ⟨hdigits, hn⟩
      · rintro ⟨hdigits, hn⟩
        exact ⟨digits, hdigits, .inr rfl, hn⟩
  case h_2 hunsigned =>
      constructor
      · rintro ⟨digits', hdigits, rfl | h, hn⟩
        · exact ⟨hdigits, hn⟩
        · cases hunsigned _ h
      · rintro ⟨hdigits, hn⟩
        exact ⟨_, hdigits, .inl rfl, hn⟩

theorem limit?_eq_some_iff {argument : String} {n : Nat} :
    limit? argument = some n ↔ Numeral argument n := by
  have hbound : limitBound = 2 ^ 64 := rfl
  rw [numeral_iff_unsigned]
  change (if unsigned argument ≠ [] ∧ (unsigned argument).all Char.isDigit = true ∧
    Nat.ofDigitChars 10 (unsigned argument) 0 < limitBound then
      some (Nat.ofDigitChars 10 (unsigned argument) 0) else none) = some n ↔ _
  rw [Option.ite_none_right_eq_some, Option.some.injEq]
  constructor
  · rintro ⟨⟨hne, hdigits, hlt⟩, hvalue⟩
    exact ⟨⟨hne, hdigits, hvalue⟩, by omega⟩
  · rintro ⟨⟨hne, hdigits, hvalue⟩, hle⟩
    exact ⟨⟨hne, hdigits, by omega⟩, hvalue⟩

theorem limit?_eq_none_iff {argument : String} :
    limit? argument = none ↔ ∀ n, ¬ Numeral argument n := by
  simp only [Option.eq_none_iff_forall_ne_some, ne_eq, limit?_eq_some_iff]

theorem Numeral.unique {argument : String} {n n' : Nat} (h : Numeral argument n)
    (h' : Numeral argument n') : n = n' := by
  rw [← limit?_eq_some_iff] at h h'
  exact Option.some.inj (h.symm.trans h')

theorem isPrefixOf_eq_true_iff {argument : String} :
    "--".isPrefixOf argument = true ↔ Dashed argument :=
  String.startsWith_string_iff

theorem LimitOption.dashed_name (option : LimitOption) : Dashed option.name := by
  cases option <;> decide

theorem dashed_noColor : Dashed "--no-color" := by decide

theorem LimitOption.name_injective : Function.Injective LimitOption.name := by
  intro option option' h
  revert h
  cases option <;> cases option' <;> decide

theorem LimitOption.name_ne_noColor (option : LimitOption) : option.name ≠ "--no-color" := by
  cases option <;> decide

/-- An item is told by the words it begins. -/
theorem Item.words_append_inj {item item' : Item} {rest rest' : List String}
    (h : item.words ++ rest = item'.words ++ rest') : item = item' ∧ rest = rest' := by
  cases item with
  | limit option value n numeral =>
      cases item' with
      | limit option' value' n' numeral' =>
          simp only [words, List.cons_append, List.nil_append, List.cons.injEq] at h
          obtain ⟨hname, rfl, hrest⟩ := h
          cases LimitOption.name_injective hname
          cases numeral.unique numeral'
          exact ⟨rfl, hrest⟩
      | plain => cases option.name_ne_noColor (List.cons.inj h).1
      | script path undashed =>
          cases (List.cons.inj h).1
          exact absurd option.dashed_name undashed
  | plain =>
      cases item' with
      | limit option' => cases option'.name_ne_noColor (List.cons.inj h).1.symm
      | plain => exact ⟨rfl, (List.cons.inj h).2⟩
      | script path undashed =>
          cases (List.cons.inj h).1
          exact absurd dashed_noColor undashed
  | script path undashed =>
      cases item' with
      | limit option' =>
          cases (List.cons.inj h).1
          exact absurd option'.dashed_name undashed
      | plain =>
          cases (List.cons.inj h).1
          exact absurd dashed_noColor undashed
      | script path' _ =>
          obtain ⟨rfl, hrest⟩ := List.cons.inj h
          exact ⟨rfl, hrest⟩

theorem words_injective : Function.Injective words := by
  intro items
  induction items with
  | nil =>
      intro items' h
      cases items' with
      | nil => rfl
      | cons item' => cases item' <;> cases h
  | cons item items ih =>
      intro items' h
      cases items' with
      | nil => cases item <;> cases h
      | cons item' items' =>
          obtain ⟨rfl, hrest⟩ := Item.words_append_inj h
          rw [ih hrest]

/-! ## Reading items -/

def Choice.take (choice : Choice) : Item → Choice
  | .limit option _ n _ => { choice with limits := option.set choice.limits n }
  | .plain => { choice with color := false }
  | .script path _ => { choice with script := path }

theorem parseFrom_limit (choice : Choice) (option : LimitOption) (value : String)
    (rest : List String) :
    parseFrom choice (option.name :: value :: rest) =
      match limit? value with
      | some n => parseFrom { choice with limits := option.set choice.limits n } rest
      | none => .error (option.bad value) := by
  cases option <;> rfl

theorem parseFrom_other (choice : Choice) {argument : String} (rest : List String)
    (hlimit : ∀ option, argument ≠ LimitOption.name option) (hplain : argument ≠ "--no-color") :
    parseFrom choice (argument :: rest) =
      if "--".isPrefixOf argument then .error (.unknownOption argument)
      else
        match choice.script with
        | some _ => .error (.unexpectedArgument argument)
        | none => parseFrom { choice with script := argument } rest := by
  have hiterations := hlimit .iterations
  have hwait := hlimit .wait
  simp only [LimitOption.name] at hiterations hwait
  rw [parseFrom.eq_def]
  split
  -- In every other case the argument is one of the names.
  case h_7 heq =>
      cases heq
      rfl
  all_goals simp_all

theorem parseFrom_undashed (choice : Choice) {argument : String} (h : ¬ Dashed argument)
    (rest : List String) :
    parseFrom choice (argument :: rest) =
      match choice.script with
      | some _ => .error (.unexpectedArgument argument)
      | none => parseFrom { choice with script := argument } rest := by
  have hlimit (option : LimitOption) : argument ≠ option.name := by
    rintro rfl
    exact h option.dashed_name
  have hplain : argument ≠ "--no-color" := by
    rintro rfl
    exact h dashed_noColor
  rw [parseFrom_other choice rest hlimit hplain, if_neg (mt isPrefixOf_eq_true_iff.1 h)]

def Choice.initial : Choice :=
  ⟨none, {}, true⟩

/-- A script is an item only where none stands before it. -/
def Choice.Open (choice : Choice) : Item → Prop
  | .script _ _ => choice.script = none
  | .limit _ _ _ _ | .plain => True

theorem parseFrom_item {choice : Choice} {item : Item} (h : choice.Open item)
    (rest : List String) :
    parseFrom choice (item.words ++ rest) = parseFrom (choice.take item) rest := by
  cases item with
  | limit option value n numeral =>
      have hlimit := limit?_eq_some_iff.2 numeral
      show parseFrom choice (option.name :: value :: rest) = _
      rw [parseFrom_limit, hlimit]
      rfl
  | plain => rfl
  | script path undashed =>
      have hnone : choice.script = none := h
      show parseFrom choice (path :: rest) = _
      rw [parseFrom_undashed choice undashed, hnone]
      rfl

theorem words_cons_append (item : Item) (items : List Item) (rest : List String) :
    words (item :: items) ++ rest = item.words ++ (words items ++ rest) := by
  rw [words, List.flatMap_cons, List.append_assoc]
  rfl

/-- Items are read one after another as long as there is at most one script among them. -/
theorem parseFrom_words (choice : Choice) {items : List Item}
    (h : (choice.script.toList ++ scripts items).length ≤ 1) (rest : List String) :
    parseFrom choice (words items ++ rest) = parseFrom (items.foldl Choice.take choice) rest := by
  induction items generalizing choice with
  | nil => rfl
  | cons item items ih =>
      have hitem : choice.Open item ∧
          ((choice.take item).script.toList ++ scripts items).length ≤ 1 := by
        cases item with
        | limit | plain => exact ⟨trivial, h⟩
        | script path undashed =>
            cases hscript : choice.script with
            | none =>
                rw [hscript] at h
                exact ⟨hscript, h⟩
            | some earlier => simp [hscript, scripts, Item.script?] at h
      calc parseFrom choice (words (item :: items) ++ rest)
          = parseFrom choice (item.words ++ (words items ++ rest)) := by rw [words_cons_append]
        _ = parseFrom (choice.take item) (words items ++ rest) := parseFrom_item hitem.1 _
        _ = parseFrom (items.foldl Choice.take (choice.take item)) rest := ih _ hitem.2

theorem Choice.foldl_take_last {α : Type} (field : Choice → Option α) (said : Item → Option α)
    (htake : ∀ choice item, field (Choice.take choice item) = (said item).or (field choice))
    (items : List Item) (choice : Choice) :
    field (items.foldl Choice.take choice) =
      (items.filterMap said).getLast?.or (field choice) := by
  induction items generalizing choice with
  | nil => rfl
  | cons item items ih =>
      rw [List.foldl_cons, ih, htake, ← Option.or_assoc, List.filterMap_cons]
      cases said item with
      | none => rw [Option.or_none]
      | some a => rw [List.getLast?_cons, Option.or_some]

theorem Choice.script_foldl_take (items : List Item) (choice : Choice) :
    (items.foldl Choice.take choice).script = (scripts items).getLast?.or choice.script :=
  foldl_take_last script Item.script? (fun choice item => by cases item <;> rfl) items choice

theorem Choice.of_foldl_take (option : LimitOption) (items : List Item) (choice : Choice) :
    option.of (items.foldl Choice.take choice).limits =
      (values option items).getLast?.or (option.of choice.limits) := by
  refine foldl_take_last (option.of ·.limits) (Item.value? option) ?_ items choice
  intro choice item
  cases item with
  | limit option' => cases option <;> cases option' <;> rfl
  | plain | script => rfl

theorem Choice.color_foldl_take (items : List Item) (choice : Choice) :
    (items.foldl Choice.take choice).color = false ↔ choice.color = false ∨ .plain ∈ items := by
  induction items generalizing choice with
  | nil => simp
  | cons item items ih =>
      rw [List.foldl_cons, ih, List.mem_cons]
      cases item <;> simp [take]

/-! ## Reading a list of arguments -/

theorem Wrong.parseFrom {choice : Choice} {rest : List String} {text : String}
    (h : Wrong choice.script.toList rest text) :
    (parseFrom choice rest).mapError UsageError.message = .error text := by
  cases h with
  | missing option => cases option <;> rfl
  | value option value rest h =>
      rw [parseFrom_limit, limit?_eq_none_iff.2 h]
      cases option <;> rfl
  | unknown argument rest h hlimit hplain =>
      rw [parseFrom_other choice rest hlimit hplain, if_pos (isPrefixOf_eq_true_iff.2 h)]
      rfl
  | unexpected argument rest h hearlier =>
      rw [parseFrom_undashed choice h]
      cases hscript : choice.script with
      | none => simp [hscript] at hearlier
      | some script => rfl

/-- The list is items, and behind them nothing, or what is wrong behind the scripts read so far. -/
def Split (earlier arguments : List String) : Prop :=
  ∃ items rest, words items ++ rest = arguments ∧ (earlier ++ scripts items).length ≤ 1 ∧
    (rest = [] ∨ ∃ text, Wrong (earlier ++ scripts items) rest text)

theorem Split.here {earlier arguments : List String} (hearlier : earlier.length ≤ 1)
    (h : arguments = [] ∨ ∃ text, Wrong earlier arguments text) : Split earlier arguments := by
  have hscripts : earlier ++ scripts [] = earlier := List.append_nil earlier
  exact ⟨[], arguments, rfl, by rwa [hscripts], by rwa [hscripts]⟩

theorem Split.behind {earlier rest : List String} (item : Item)
    (h : Split (earlier ++ item.script?.toList) rest) : Split earlier (item.words ++ rest) := by
  obtain ⟨items, rest, rfl, hone, hrest⟩ := h
  have hscripts : earlier ++ item.script?.toList ++ scripts items =
      earlier ++ scripts (item :: items) := by
    rw [List.append_assoc]
    cases item <;> rfl
  rw [hscripts] at hone hrest
  exact ⟨item :: items, rest, words_cons_append item items rest, hone, hrest⟩

/-- Every list of arguments is items up to its end or up to what is wrong. -/
theorem split_script (choice : Choice) (arguments : List String) :
    Split choice.script.toList arguments := by
  have hone (choice : Choice) : choice.script.toList.length ≤ 1 := by
    cases choice.script <;> simp
  -- The induction follows the reader, whose choice knows the scripts in front of each item.
  fun_induction parseFrom choice arguments with
  | case1 choice | case2 choice => exact .here (hone choice) (.inl rfl)
  | case3 choice => exact .here (hone choice) (.inr ⟨_, .missing .iterations⟩)
  | case6 choice => exact .here (hone choice) (.inr ⟨_, .missing .wait⟩)
  | case4 choice value rest n hn ih =>
      refine Split.behind (.limit .iterations value n (limit?_eq_some_iff.1 hn)) ?_
      rwa [Item.script?, Option.toList_none, List.append_nil]
  | case7 choice value rest n hn ih =>
      refine Split.behind (.limit .wait value n (limit?_eq_some_iff.1 hn)) ?_
      rwa [Item.script?, Option.toList_none, List.append_nil]
  | case5 choice value rest hvalue =>
      rw [limit?_eq_none_iff] at hvalue
      exact .here (hone choice) (.inr ⟨_, .value .iterations value rest hvalue⟩)
  | case8 choice value rest hvalue =>
      rw [limit?_eq_none_iff] at hvalue
      exact .here (hone choice) (.inr ⟨_, .value .wait value rest hvalue⟩)
  | case9 choice rest ih =>
      refine Split.behind .plain ?_
      rwa [Item.script?, Option.toList_none, List.append_nil]
  | case10 choice argument rest hlast hvalue hlast' hvalue' hplain hdashed =>
      have hlimit (option : LimitOption) : argument ≠ option.name := by
        intro hname
        cases option <;> cases rest
        · exact hlast hname rfl
        · exact hvalue _ _ hname rfl
        · exact hlast' hname rfl
        · exact hvalue' _ _ hname rfl
      rw [isPrefixOf_eq_true_iff] at hdashed
      exact .here (hone choice) (.inr ⟨_, .unknown argument rest hdashed hlimit hplain⟩)
  | case11 choice argument rest _ _ _ _ _ hdashed script hscript =>
      rw [isPrefixOf_eq_true_iff] at hdashed
      have hearlier : choice.script.toList ≠ [] := by simp [hscript]
      exact .here (hone choice) (.inr ⟨_, .unexpected argument rest hdashed hearlier⟩)
  | case12 choice argument rest _ _ _ _ _ hdashed hscript ih =>
      rw [isPrefixOf_eq_true_iff] at hdashed
      refine Split.behind (.script argument hdashed) ?_
      rwa [hscript]

theorem split_cases (arguments : List String) :
    (∃ items script, words items = arguments ∧ scripts items = [script]) ∨
    (∃ items, words items = arguments ∧ scripts items = []) ∨
    ∃ items rest text, words items ++ rest = arguments ∧ (scripts items).length ≤ 1 ∧
      Wrong (scripts items) rest text := by
  obtain ⟨items, rest, harguments, hone, rfl | ⟨text, hwrong⟩⟩ := split_script .initial arguments
  · rw [List.append_nil] at harguments
    match hscripts : scripts items, hone with
    | [], _ => exact .inr (.inl ⟨items, harguments, hscripts⟩)
    | [script], _ => exact .inl ⟨items, script, harguments, hscripts⟩
  · exact .inr (.inr ⟨items, rest, text, harguments, hone, hwrong⟩)

theorem parse_words_append {items : List Item} (hone : (scripts items).length ≤ 1)
    (rest : List String) :
    parse (words items ++ rest) = parseFrom (items.foldl Choice.take .initial) rest :=
  parseFrom_words .initial hone rest

theorem Choice.toList_script_initial {items : List Item} (hone : (scripts items).length ≤ 1) :
    (items.foldl take .initial).script.toList = scripts items := by
  rw [script_foldl_take]
  match scripts items, hone with
  | [], _ | [_], _ => rfl

theorem parse_words {items : List Item} {script : String} (h : scripts items = [script]) :
    ∃ invocation, parse (words items) = .ok invocation ∧ Means items invocation := by
  have hscript : (items.foldl Choice.take .initial).script = some script := by
    rw [Choice.script_foldl_take, h]
    rfl
  have hone : (scripts items).length ≤ 1 := by simp [h]
  have hread := parse_words_append hone []
  rw [List.append_nil, parseFrom, hscript] at hread
  refine ⟨_, hread, h, fun option => ?_, ?_⟩
  · rw [Choice.of_foldl_take]
    cases option <;> exact Option.or_none
  · rw [Choice.color_foldl_take]
    simp [Choice.initial]

theorem parse_words_noScript {items : List Item} (h : scripts items = []) :
    parse (words items) = .error .noScript := by
  have hscript : (items.foldl Choice.take .initial).script = none := by
    rw [Choice.script_foldl_take, h]
    rfl
  have hone : (scripts items).length ≤ 1 := by simp [h]
  have hread := parse_words_append hone []
  rwa [List.append_nil, parseFrom, hscript] at hread

theorem parse_words_wrong {items : List Item} {rest : List String} {text : String}
    (hone : (scripts items).length ≤ 1) (h : Wrong (scripts items) rest text) :
    (parse (words items ++ rest)).mapError UsageError.message = .error text := by
  rw [← Choice.toList_script_initial hone] at h
  rw [parse_words_append hone]
  exact h.parseFrom

theorem LimitOption.ext {limits limits' : Limits}
    (h : ∀ option, of limits option = of limits' option) : limits = limits' := by
  obtain ⟨maxIterations, maxWait⟩ := limits
  cases h .iterations
  cases h .wait
  rfl

theorem Means.unique {items : List Item} {invocation invocation' : Invocation}
    (h : Means items invocation) (h' : Means items invocation') : invocation = invocation' := by
  have hscript : invocation.script = invocation'.script :=
    (List.cons.inj (h.script.symm.trans h'.script)).1
  have hlimits : invocation.limits = invocation'.limits :=
    LimitOption.ext fun option => (h.limit option).trans (h'.limit option).symm
  have hcolor : invocation.color = invocation'.color :=
    Bool.eq_iff_iff.2 (by
      rw [← not_iff_not, Bool.not_eq_true, Bool.not_eq_true]
      exact h.color.trans h'.color.symm)
  cases invocation
  cases invocation'
  rw [Invocation.mk.injEq]
  exact ⟨hscript, hlimits, hcolor⟩

theorem Means.perm {items items' : List Item} {invocation : Invocation} (h : Means items invocation)
    (hperm : items.Perm items') (hvalues : ∀ option, values option items' = values option items) :
    Means items' invocation where
  script := by
    have hscripts : (scripts items).Perm (scripts items') := hperm.filterMap Item.script?
    rw [h.script] at hscripts
    exact (List.singleton_perm.1 hscripts).symm
  limit option := by rw [hvalues, h.limit]
  color := by rw [h.color, hperm.mem_iff]

theorem Wrong.ne_noScript {earlier rest : List String} {text : String}
    (h : Wrong earlier rest text) : text ≠ "no script file provided" := by
  intro heq
  have hhead : text.toList.head? = some 'n' := by
    rw [heq]
    decide
  cases h with
  | missing option =>
      revert hhead
      cases option <;> decide
  | value | unknown | unexpected => simp [toString] at hhead

theorem parse_eq_ok_iff_means {arguments : List String} {invocation : Invocation} :
    parse arguments = .ok invocation ↔
      ∃ items, words items = arguments ∧ Means items invocation := by
  constructor
  · intro h
    obtain ⟨items, script, rfl, hscripts⟩ | ⟨items, rfl, hscripts⟩ |
      ⟨items, rest, text, rfl, hone, hwrong⟩ := split_cases arguments
    · obtain ⟨invocation', hparse, hmeans⟩ := parse_words hscripts
      cases hparse.symm.trans h
      exact ⟨items, rfl, hmeans⟩
    · cases (parse_words_noScript hscripts).symm.trans h
    · have herror := parse_words_wrong hone hwrong
      rw [h] at herror
      cases herror
  · rintro ⟨items, rfl, hmeans⟩
    obtain ⟨invocation', hparse, hmeans'⟩ := parse_words hmeans.script
    rw [hparse, hmeans'.unique hmeans]

theorem parse_eq_error_iff_wrong {arguments : List String} {text : String} :
    (parse arguments).mapError UsageError.message = .error text ↔
      (∃ items rest, words items ++ rest = arguments ∧ (scripts items).length ≤ 1 ∧
        Wrong (scripts items) rest text) ∨
      ∃ items, words items = arguments ∧ scripts items = [] ∧
        text = "no script file provided" := by
  constructor
  · intro h
    obtain ⟨items, script, rfl, hscripts⟩ | ⟨items, rfl, hscripts⟩ |
      ⟨items, rest, text', rfl, hone, hwrong⟩ := split_cases arguments
    · obtain ⟨invocation, hparse, -⟩ := parse_words hscripts
      rw [hparse] at h
      cases h
    · rw [parse_words_noScript hscripts] at h
      cases h
      exact .inr ⟨items, rfl, hscripts, rfl⟩
    · cases (parse_words_wrong hone hwrong).symm.trans h
      exact .inl ⟨items, rest, rfl, hone, hwrong⟩
  · rintro (⟨items, rest, rfl, hone, hwrong⟩ | ⟨items, rfl, hscripts, rfl⟩)
    · exact parse_words_wrong hone hwrong
    · rw [parse_words_noScript hscripts]
      rfl

/-- A list of arguments is accepted exactly when it is nothing but items, one of them a script. It
is items in one way only and the call is what they say, so the order of the items does not matter as
long as the values of each option keep theirs. A list is rejected for the first item that is wrong,
and for want of a script only when no item is wrong and none is a script. -/
theorem parse_reads_items (arguments : List String) :
    ((∃ invocation, parse arguments = .ok invocation) ↔
      ∃ items script, words items = arguments ∧ scripts items = [script]) ∧
    (∀ items, words items = arguments →
      (∀ items', words items' = arguments → items' = items) ∧
      ∀ invocation, parse arguments = .ok invocation →
        Means items invocation ∧
        ∀ items', items.Perm items' →
          (∀ option, values option items' = values option items) →
          parse (words items') = .ok invocation) ∧
    (∀ text, (parse arguments).mapError UsageError.message = .error text ↔
      (∃ items rest, words items ++ rest = arguments ∧ (scripts items).length ≤ 1 ∧
        Wrong (scripts items) rest text) ∨
      ∃ items, words items = arguments ∧ scripts items = [] ∧
        text = "no script file provided") ∧
    ((parse arguments).mapError UsageError.message = .error "no script file provided" ↔
      ∃ items, words items = arguments ∧ scripts items = []) := by
  refine ⟨⟨?accepted, ?items⟩, ?means, fun text => parse_eq_error_iff_wrong, ?noScript⟩
  case accepted =>
    rintro ⟨invocation, h⟩
    obtain ⟨items, rfl, hmeans⟩ := parse_eq_ok_iff_means.1 h
    exact ⟨items, invocation.script, rfl, hmeans.script⟩
  case items =>
    rintro ⟨items, script, rfl, hscripts⟩
    obtain ⟨invocation, hparse, -⟩ := parse_words hscripts
    exact ⟨invocation, hparse⟩
  case means =>
    rintro items rfl
    refine ⟨fun items' h => words_injective h, fun invocation h => ?_⟩
    obtain ⟨items₀, hwords, hmeans⟩ := parse_eq_ok_iff_means.1 h
    cases words_injective hwords
    refine ⟨hmeans, fun items' hperm hvalues => ?_⟩
    exact parse_eq_ok_iff_means.2 ⟨items', rfl, hmeans.perm hperm hvalues⟩
  case noScript =>
    rw [parse_eq_error_iff_wrong]
    constructor
    · rintro (⟨items, rest, -, -, hwrong⟩ | ⟨items, hwords, hscripts, -⟩)
      · cases hwrong.ne_noScript rfl
      · exact ⟨items, hwords, hscripts⟩
    · rintro ⟨items, hwords, hscripts⟩
      exact .inr ⟨items, hwords, hscripts, rfl⟩

/-- An option that stands where the value of another belongs is taken for that value. -/
theorem parse_reads_items_reordered :
    parse ["--max-wait", "7", "--no-color", "s", "--max-wait", "+09"] =
      .ok ⟨"s", { maxWait := some 9 }, false⟩ ∧
    parse ["s", "--max-wait", "7", "--max-wait", "+09", "--no-color"] =
      .ok ⟨"s", { maxWait := some 9 }, false⟩ ∧
    (parse ["s", "--max-wait", "--no-color"]).mapError UsageError.message =
      .error "invalid wait limit '--no-color'" := by
  have hseven : Numeral "7" 7 := limit?_eq_some_iff.1 (by decide)
  have hnine : Numeral "+09" 9 := limit?_eq_some_iff.1 (by decide)
  have hscript : ¬ Dashed "s" := by decide
  have hbad : ∀ n, ¬ Numeral "--no-color" n := limit?_eq_none_iff.1 (by decide)
  have hparse : parse ["--max-wait", "7", "--no-color", "s", "--max-wait", "+09"] =
      .ok ⟨"s", { maxWait := some 9 }, false⟩ := rfl
  let early : Item := .limit .wait "7" 7 hseven
  let late : Item := .limit .wait "+09" 9 hnine
  let path : Item := .script "s" hscript
  have hperm : [early, .plain, path, late].Perm [path, early, late, .plain] := by
    change ([early, .plain] ++ path :: [late]).Perm _
    apply List.perm_middle.trans
    exact ((List.Perm.swap _ _ []).cons early).cons path
  refine ⟨hparse, ?reordered, ?rejected⟩
  case reordered =>
    obtain ⟨-, hreads⟩ := (parse_reads_items _).2.1 [early, .plain, path, late] rfl
    exact (hreads _ hparse).2 _ hperm fun option => by cases option <;> rfl
  case rejected =>
    refine ((parse_reads_items _).2.2.1 _).2 (.inl ⟨[path], _, rfl, ?_, ?_⟩)
    · exact Nat.le_refl 1
    · exact .value .wait "--no-color" [] hbad

end FileChores.CommandLine
