import BuildYourOwnStuff.HttpServer.Handler

/-!
# What responses disclose

The path of a request is used as it is. So a response is independent of the files
outside `static` exactly for the paths that never leave it for another place than the
directories above it, and for those that end where only a directory can be.
-/

namespace BuildYourOwnStuff.HttpServer

open Foundations CppStd GoStd

def staticDir (cwd : List Bytes) : List Bytes := cwd ++ [ascii "static"]

/-- The response is the same on all file systems with the same files in `static`. -/
def DisclosesNothing (cwd : List Bytes) (rawRequest : Bytes) : Prop :=
  ∀ fs fs' : FileSystem, FileTree.Agree (staticDir cwd) fs fs' →
    RequestHandler.handle fs cwd rawRequest = RequestHandler.handle fs' cwd rawRequest

def StaysInside (cwd : List Bytes) (rawRequest : Bytes) : Prop :=
  Confined (staticDir cwd) cwd (resolve (RequestHandler.fullPath rawRequest))

def EndsAtDirectory (cwd : List Bytes) (rawRequest : Bytes) : Prop :=
  DeadEnd (staticDir cwd) cwd (resolve (RequestHandler.fullPath rawRequest))

/-- A path with a slash in front and without a component `..` stays inside. -/
theorem staysInside_of_notMem_up (cwd : List Bytes) {rawRequest rest : Bytes}
    (hslash : RequestHandler.requestPath rawRequest = 0x2F :: rest) (hup : .up ∉ resolve rest) :
    StaysInside cwd rawRequest := by
  have hstatic : cString (ascii "static" ++ 0x2F :: rest) =
      ascii "static" ++ 0x2F :: cString rest := rfl
  have hresolve : resolve (RequestHandler.fullPath rawRequest) =
      .down (ascii "static") :: resolve rest := by
    rw [RequestHandler.fullPath, hslash, resolve, hstatic, List.splitOn_append_cons_of_beq _ _ rfl]
    rfl
  rw [StaysInside, hresolve]
  exact confined_of_notMem_up hup

theorem disclosesNothing_of_staysInside {cwd : List Bytes} {rawRequest : Bytes}
    (h : StaysInside cwd rawRequest) : DisclosesNothing cwd rawRequest := by
  intro fs fs' hagree
  exact RequestHandler.handle_congr (hagree.read_eq h)

theorem disclosesNothing_of_endsAtDirectory {cwd : List Bytes} {rawRequest : Bytes}
    (h : EndsAtDirectory cwd rawRequest) : DisclosesNothing cwd rawRequest := by
  intro fs fs' hagree
  rw [RequestHandler.handle_of_read_none (fs.read_of_deadEnd hagree.directory h),
    RequestHandler.handle_of_read_none (fs'.read_of_deadEnd hagree.symm.directory h)]

/-- A response tells whether there is a certain file outside. -/
theorem not_disclosesNothing {cwd : List Bytes} {rawRequest : Bytes}
    (hinside : ¬ StaysInside cwd rawRequest) (hend : ¬ EndsAtDirectory cwd rawRequest) :
    ¬ DisclosesNothing cwd rawRequest := by
  intro h
  obtain ⟨fs, fs', hagree, hread, hnone⟩ :=
    FileTree.exists_agree_read_ne hinside hend (ascii "secret")
  apply RequestHandler.handle_ne_notFound hread
  rw [h fs fs' hagree, RequestHandler.handle_of_read_none hnone]

/-- A response is independent of the files outside exactly if the path of the request
stays inside or ends at a directory. -/
theorem disclosesNothing_iff (cwd : List Bytes) (rawRequest : Bytes) :
    DisclosesNothing cwd rawRequest ↔
      StaysInside cwd rawRequest ∨ EndsAtDirectory cwd rawRequest := by
  constructor
  · intro h
    by_contra hneither
    rw [not_or] at hneither
    exact not_disclosesNothing hneither.1 hneither.2 h
  · rintro (hinside | hend)
    · exact disclosesNothing_of_staysInside hinside
    · exact disclosesNothing_of_endsAtDirectory hend

/-- The server sends a file that is next to `static`. -/
theorem secret_disclosed :
    ¬ ∀ cwd rawRequest, DisclosesNothing cwd rawRequest := by
  intro h
  refine not_disclosesNothing ?_ ?_ (h [ascii "srv"] (ascii "GET /../secret HTTP/1.1"))
  · unfold StaysInside
    decide
  · unfold EndsAtDirectory
    decide

end BuildYourOwnStuff.HttpServer
