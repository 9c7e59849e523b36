import FileChores.Proofs.Grammar.Script
import FileChores.Proofs.Printing.Sound
import FileChores.Proofs.Program.Assigned

/-!
# The names of a script

Every name that a script binds is one of its words, and so no keyword.
-/

namespace FileChores

theorem Lexemes.isName_of_scan {here : Position} {cs : List Char} {lexemes : Lexemes}
    (h : scan here cs = .ok lexemes) {name : String} {pos : Position}
    (hmem : ⟨.word name, pos⟩ ∈ lexemes.list) : Token.IsName name := by
  fun_induction scan here cs generalizing lexemes with
  | case1 here =>
      cases h
      exact absurd hmem List.not_mem_nil
  | case2 here c rest hc ih => exact ih h hmem
  | case3 => cases h
  | case4 here c rest hc piece hcut ih =>
      cases hlater : scan (here.after piece.written) piece.rest with
      | error e => rw [hlater] at h; cases h
      | ok later =>
          rw [hlater] at h
          cases h
          rcases List.mem_cons.1 hmem with heq | hmem
          · obtain ⟨hword, -⟩ := Lexeme.mk.inj heq
            have hsound : piece.token.Sound :=
              Token.sound_of_cut hcut fun value hvalue => by rw [← hword] at hvalue; cases hvalue
            rw [← hword] at hsound
            exact hsound
          · exact ih hlater hmem

namespace Grammar

def Written (name : String) (lexemes : List Lexeme) : Prop :=
  ∃ pos, ⟨.word name, pos⟩ ∈ lexemes

theorem Written.mono {name : String} {lexemes lexemes' : List Lexeme} (h : Written name lexemes)
    (hsub : lexemes ⊆ lexemes') : Written name lexemes' :=
  h.imp fun _ hmem => hsub hmem

mutual

theorem Statement.written_of_target (d : Statement) {statement : FileChores.Statement}
    (h : statement.Inside [d.tree]) {name : String} (htarget : statement.target? = some name) :
    Written name d.yield := by
  rcases h with h | ⟨h, hinside⟩ | ⟨h, hinside⟩ | ⟨h, hinside⟩
  · obtain rfl := List.mem_singleton.1 h
    cases d with
    | declare pos name' namePos signPos value =>
        cases htarget
        exact ⟨namePos, by simp⟩
    | assign name' pos free signPos value =>
        cases htarget
        exact ⟨pos, by simp⟩
    | branch | loop | call => cases htarget
  · cases d with
    | branch pos condition thenBlock elseBlock =>
        cases List.mem_singleton.1 h
        exact (thenBlock.written_of_target hinside htarget).mono (by intro x; simp +contextual)
    | _ => cases List.mem_singleton.1 h
  · cases d with
    | branch pos condition thenBlock elseBlock =>
        have helse := (FileChores.Statement.branch.inj (List.mem_singleton.1 h)).2.2.1
        exact (elseBlock.written_of_target helse.symm hinside htarget).mono
          (by intro x; simp +contextual)
    | _ => cases List.mem_singleton.1 h
  · cases d with
    | loop pos condition body =>
        cases List.mem_singleton.1 h
        exact (body.written_of_target hinside htarget).mono (by intro x; simp +contextual)
    | _ => cases List.mem_singleton.1 h

theorem Else.written_of_target (d : Else) {block : FileChores.Block}
    (hblock : d.trees? = some block) {statement : FileChores.Statement}
    (h : statement.Inside block) {name : String} (htarget : statement.target? = some name) :
    Written name d.yield := by
  cases d with
  | none => cases hblock
  | block pos inner =>
      cases hblock
      exact (inner.written_of_target h htarget).mono (List.subset_cons_self _ _)

theorem Block.written_of_target (d : Block) {statement : FileChores.Statement}
    (h : statement.Inside d.trees) {name : String} (htarget : statement.target? = some name) :
    Written name d.yield := by
  cases d with
  | mk opening body => exact (body.written_of_target h htarget).mono (List.subset_cons_self _ _)

theorem Body.written_of_target (d : Body) {statement : FileChores.Statement}
    (h : statement.Inside d.trees) {name : String} (htarget : statement.target? = some name) :
    Written name d.yield := by
  cases d with
  | close closing => exact absurd h (FileChores.Statement.not_inside_nil _)
  | more first rest =>
      rcases h.of_cons with h | h
      · exact (first.written_of_target h htarget).mono (List.subset_append_left _ _)
      · exact (rest.written_of_target h htarget).mono (List.subset_append_right _ _)

end

end Grammar

theorem Program.isName_of_assigns {source : String} {program : Program}
    (h : ofSource source = .ok program) {name : String} (hname : Assigns program.body name) :
    Token.IsName name := by
  obtain ⟨lexemes, hlexemes, d, hyield, rfl⟩ := ofSource_eq_ok_iff.1 h
  obtain ⟨statement, hinside, htarget⟩ := hname
  obtain ⟨pos, hmem⟩ := d.written_of_target hinside htarget
  exact Lexemes.isName_of_scan hlexemes (hyield ▸ hmem)

end FileChores
