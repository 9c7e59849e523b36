/-!
# Positions in a script

Lines and columns count from one. A column counts characters, and only a line feed ends a line.
-/

namespace FileChores

structure Position where
  line : Nat
  column : Nat
  deriving DecidableEq, Repr, Inhabited

namespace Position

def start : Position := ⟨1, 1⟩

def advance (here : Position) (c : Char) : Position :=
  if c = '\n' then ⟨here.line + 1, 1⟩ else ⟨here.line, here.column + 1⟩

def after (here : Position) (run : List Char) : Position :=
  run.foldl advance here

@[simp] theorem after_nil (here : Position) : here.after [] = here := rfl

@[simp] theorem after_cons (here : Position) (c : Char) (run : List Char) :
    here.after (c :: run) = (here.advance c).after run := rfl

@[simp] theorem after_append (here : Position) (run more : List Char) :
    here.after (run ++ more) = (here.after run).after more :=
  List.foldl_append

def describe (here : Position) : String :=
  s!"line {here.line}, column {here.column}"

end Position

end FileChores
