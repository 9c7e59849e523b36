import FileChores.FileSystem

/-!
# Scripted file systems

A file system that holds no files: it gives out prepared responses in order, and keeps the requests
it was asked. When no response is left it grants the request with nothing.
-/

namespace FileChores

inductive Response
  /-- Grants the request: the number for one that is told a number, the names for a list. -/
  | grant (number : Nat) (names : List String)
  | fail (e : FileError)

namespace Response

def reply (number : Nat) (names : List String) : (request : Request) → request.Reply
  | .move .. | .rename .. | .delete .. => ()
  | .copy .. | .count .. | .space .. => number
  | .list .. => names

def answer (response : Response) (request : Request) : Answer request :=
  match response with
  | grant number names => ⟨.ok (reply number names request), none⟩
  | fail e => ⟨.error e, none⟩

end Response

structure Scripted where
  responses : List Response
  asked : Array Request

namespace Scripted

def ofResponses (responses : List Response) : Scripted := ⟨responses, #[]⟩

def fileSystem : FileSystem Scripted where
  answer request state :=
    match state.responses with
    | [] => ((Response.grant 0 []).answer request, ⟨[], state.asked.push request⟩)
    | next :: rest => (next.answer request, ⟨rest, state.asked.push request⟩)

/-- The file system `behind`, unless a scripted one has been put in front of it. -/
def before {σ : Type} (behind : FileSystem σ) : FileSystem (Option Scripted × σ) where
  answer request
    | (some scripted, state) =>
        let (answer, scripted) := fileSystem.answer request scripted
        (answer, some scripted, state)
    | (none, state) =>
        let (answer, state) := behind.answer request state
        (answer, none, state)

end Scripted

end FileChores
