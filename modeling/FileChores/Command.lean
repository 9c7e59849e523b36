/-!
# Commands

The fixed set of commands that act on files. Two of them answer with a number and may stand inside
an expression.
-/

namespace FileChores

inductive Command
  | moveFile
  | copyFile
  | renameFile
  | deleteFile
  | listFiles
  | countFiles
  | checkSpace
  | wait
  deriving DecidableEq, Repr

namespace Command

def all : List Command :=
  [moveFile, copyFile, renameFile, deleteFile, listFiles, countFiles, checkSpace, wait]

def name : Command → String
  | moveFile => "MoveFile"
  | copyFile => "CopyFile"
  | renameFile => "RenameFile"
  | deleteFile => "DeleteFile"
  | listFiles => "ListFiles"
  | countFiles => "CountFiles"
  | checkSpace => "CheckSpace"
  | wait => "Wait"

def arity : Command → Nat
  | moveFile | copyFile | renameFile => 2
  | deleteFile | listFiles | countFiles | checkSpace | wait => 1

def isQuery : Command → Bool
  | countFiles | checkSpace => true
  | _ => false

def ofName? (word : String) : Option Command :=
  all.find? fun command => command.name == word

theorem ofName?_name (command : Command) : ofName? command.name = some command := by
  cases command <;> decide

theorem ofName?_eq_some_iff {word : String} {command : Command} :
    ofName? word = some command ↔ word = command.name := by
  constructor
  · intro found
    have := List.find?_some found
    exact (beq_iff_eq.1 this).symm
  · rintro rfl
    exact ofName?_name command

theorem name_inj {command command' : Command} (h : command.name = command'.name) :
    command = command' := by
  have := ofName?_name command
  rw [h, ofName?_name] at this
  exact (Option.some.inj this).symm

end Command

end FileChores
