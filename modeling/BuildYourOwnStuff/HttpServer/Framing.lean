import BuildYourOwnStuff.Foundations.Delimiters
import BuildYourOwnStuff.Foundations.Lines
import BuildYourOwnStuff.HttpServer.Handler

/-!
# How a client reads a response

A client takes the response apart at the first empty line. It finds the file there,
whatever its content is, unless the file is empty.
-/

namespace BuildYourOwnStuff.HttpServer

open Foundations CppStd GoStd

/-- A response as a client sees it. -/
structure Reply where
  status : Bytes
  fields : List (Bytes × Bytes)
  body : Bytes
  deriving DecidableEq, Repr

namespace Reply

/-- The name and the value of a line of the head, if it has a colon. -/
def field (line : Bytes) : Option (Bytes × Bytes) :=
  (cut 0x3A line).map fun parts => (parts.1, parts.2.dropWhile isSpace)

/-- The head and the body are divided by the first CRLFCRLF. -/
def read (response : Bytes) : Option Reply := do
  let (head, body) ← cutAt (ascii "\r\n\r\n") response
  match partsAt 0x0D [0x0A] head with
  | [] => none
  | status :: lines => some ⟨status, lines.filterMap field, body⟩

end Reply

namespace RequestHandler

/-- The response has the content of the file with its length, or tells that there is none. -/
def Delivers (fs : FileSystem) (cwd : List Bytes) (rawRequest : Bytes) : Prop :=
  match fs.read cwd (resolve (fullPath rawRequest)) with
  | some content => ∃ reply, Reply.read (handle fs cwd rawRequest) = some reply ∧
      reply.status = ascii "HTTP/1.1 200 OK" ∧
        reply.fields.lookup (ascii "Content-Length") = some (decimal content.length) ∧
          reply.body = content
  | none => ∃ reply, Reply.read (handle fs cwd rawRequest) = some reply ∧
      reply.status = ascii "HTTP/1.1 404 Not Found"

/-- A field that is read from its line as it is. -/
structure IsField (name value : Bytes) : Prop where
  colon : 0x3A ∉ name
  cr : 0x0D ∉ name ++ value
  start : value.head?.any isSpace = false

def fieldLine (f : Bytes × Bytes) : Bytes := f.1 ++ ascii ": " ++ f.2

theorem IsField.read {f : Bytes × Bytes} (h : IsField f.1 f.2) :
    Reply.field (fieldLine f) = some f := by
  have hline : fieldLine f = f.1 ++ 0x3A :: 0x20 :: f.2 := List.append_assoc _ _ _
  have hskip : f.2.dropWhile isSpace = f.2 := by
    have hstart := h.start
    rcases hvalue : f.2 with _ | ⟨b, value⟩
    · rfl
    · rw [hvalue, List.head?_cons, Option.any_some] at hstart
      rw [List.dropWhile_cons_of_neg (by simp [hstart])]
  rw [Reply.field, hline, cut_append_sep h.colon, Option.map_some, List.dropWhile_cons]
  exact congrArg (fun value => some (f.1, value)) hskip

theorem IsField.line {f : Bytes × Bytes} (h : IsField f.1 f.2) :
    fieldLine f ≠ [] ∧ 0x0D ∉ fieldLine f := by
  have hcr := h.cr
  rw [List.mem_append, not_or] at hcr
  have hline : fieldLine f = f.1 ++ 0x3A :: 0x20 :: f.2 := List.append_assoc _ _ _
  rw [hline]
  refine ⟨by simp, ?_⟩
  rw [List.mem_append, List.mem_cons, List.mem_cons]
  rintro (hname | hcolon | hspace | hvalue)
  · exact hcr.1 hname
  · exact absurd hcolon (by decide)
  · exact absurd hspace (by decide)
  · exact hcr.2 hvalue

/-- The lines of a head, and a body after them. -/
def response (status : Bytes) (fields : List (Bytes × Bytes)) (body : Bytes) : Bytes :=
  List.intercalate [0x0D, 0x0A] (status :: fields.map fieldLine) ++ ascii "\r\n\r\n" ++ body

/-- A head of such fields is read before any body. -/
theorem read_response {status : Bytes} {fields : List (Bytes × Bytes)}
    (hstatus : status ≠ [] ∧ 0x0D ∉ status) (hfields : ∀ f ∈ fields, IsField f.1 f.2)
    (body : Bytes) : Reply.read (response status fields body) = some ⟨status, fields, body⟩ := by
  have hlines : ∀ l ∈ status :: fields.map fieldLine, l ≠ [] ∧ 0x0D ∉ l :=
    List.forall_mem_cons.mpr
      ⟨hstatus, List.forall_mem_map.mpr fun f hf => (hfields f hf).line⟩
  have hcut := cutAt_intercalate (a := (0x0D : UInt8)) (d := [0x0A]) (by decide)
    (List.cons_ne_nil _ _) hlines body
  have hparts := partsAt_intercalate (a := (0x0D : UInt8)) (d := [0x0A])
    (List.cons_ne_nil _ _) fun l hl => (hlines l hl).2
  have hread : (fields.map fieldLine).filterMap Reply.field = fields := by
    rw [List.filterMap_map]
    exact (List.filterMap_congr fun f hf => (hfields f hf).read).trans List.filterMap_some
  have hempty : ascii "\r\n\r\n" = 0x0D :: ([0x0A] ++ 0x0D :: [0x0A]) := rfl
  rw [response, Reply.read, hempty, hcut]
  simp only [bind, Option.bind, hparts, hread]

theorem read_notFound : Reply.read notFound = some ⟨ascii "HTTP/1.1 404 Not Found",
    [(ascii "Content-Type", ascii "text/plain")], ascii "File Not Found"⟩ := by
  have hnotFound : notFound = response (ascii "HTTP/1.1 404 Not Found")
      [(ascii "Content-Type", ascii "text/plain")] (ascii "File Not Found") := by
    decide
  rw [hnotFound]
  exact read_response (by decide)
    (List.forall_mem_singleton.mpr ⟨by decide, by decide, by decide⟩) (ascii "File Not Found")

theorem isField_mime (path : Bytes) :
    IsField (ascii "Content-Type") (FileUtils.getMimeType path) := by
  rw [FileUtils.getMimeType]
  split_ifs <;> exact ⟨by decide, by decide, by decide⟩

theorem isField_length (n : ℕ) : IsField (ascii "Content-Length") (decimal n) := by
  have hdigit : ∀ b ∈ decimal n, isDigit b = true := fun b hb => isDigit_of_mem_decimal hb
  refine ⟨by decide, fun h => ?_, (Option.any_eq_false _ _).mpr fun b hb =>
    Bool.not_eq_true _ ▸ not_isSpace_of_isDigit (hdigit b (List.mem_of_mem_head? hb))⟩
  rcases List.mem_append.mp h with hname | hvalue
  · exact absurd hname (by decide)
  · exact absurd (hdigit _ hvalue) (by decide)

theorem read_ok (path content : Bytes) :
    Reply.read (ok (FileUtils.getMimeType path) content) = some ⟨ascii "HTTP/1.1 200 OK",
      [(ascii "Content-Type", FileUtils.getMimeType path),
        (ascii "Content-Length", decimal content.length)], content⟩ := by
  have hok : ok (FileUtils.getMimeType path) content = response (ascii "HTTP/1.1 200 OK")
      [(ascii "Content-Type", FileUtils.getMimeType path),
        (ascii "Content-Length", decimal content.length)] content := by
    have hstart : ascii "HTTP/1.1 200 OK\r\nContent-Type: " = ascii "HTTP/1.1 200 OK" ++
        [0x0D, 0x0A] ++ ascii "Content-Type" ++ ascii ": " := by decide
    have hmiddle : ascii "\r\nContent-Length: " =
        [0x0D, 0x0A] ++ ascii "Content-Length" ++ ascii ": " := by decide
    rw [ok, response, hstart, hmiddle, List.map_cons, List.map_singleton,
      List.intercalate_cons_cons, List.intercalate_cons_cons, List.intercalate_singleton]
    simp only [fieldLine, List.append_assoc]
  rw [hok]
  exact read_response (by decide) (List.forall_mem_cons.mpr ⟨isField_mime path,
    List.forall_mem_singleton.mpr (isField_length content.length)⟩) content

theorem status_notFound {reply : Reply} (h : Reply.read notFound = some reply) :
    reply.status ≠ ascii "HTTP/1.1 200 OK" := by
  cases read_notFound.symm.trans h
  decide

/-- A response delivers the file unless it is empty. -/
theorem delivers_iff (fs : FileSystem) (cwd : List Bytes) (rawRequest : Bytes) :
    Delivers fs cwd rawRequest ↔ fs.read cwd (resolve (fullPath rawRequest)) ≠ some [] := by
  rw [Delivers, handle, FileUtils.readFile]
  rcases fs.read cwd (resolve (fullPath rawRequest)) with _ | _ | ⟨b, content⟩
  · exact iff_of_true ⟨_, read_notFound, rfl⟩ (Option.some_ne_none []).symm
  · refine iff_of_false ?_ fun h => h rfl
    rintro ⟨reply, hreply, hstatus, -⟩
    exact status_notFound hreply hstatus
  · refine iff_of_true ⟨_, read_ok _ (b :: content), rfl, rfl, rfl⟩ fun h => ?_
    cases h

/-- A server with an empty file in `static`. -/
def emptyFile : FileSystem :=
  FileTree.oneFile [ascii "srv", ascii "static", ascii "empty.txt"] [] [] (by decide) (by decide)

/-- An empty file is there, and it is not found. -/
theorem empty_not_delivered :
    emptyFile.read [ascii "srv"] (resolve (fullPath (ascii "GET /empty.txt HTTP/1.1\r\n\r\n"))) =
      some [] ∧
    handle emptyFile [ascii "srv"] (ascii "GET /empty.txt HTTP/1.1\r\n\r\n") = notFound ∧
      ¬ Delivers emptyFile [ascii "srv"] (ascii "GET /empty.txt HTTP/1.1\r\n\r\n") := by
  have hread : emptyFile.read [ascii "srv"]
      (resolve (fullPath (ascii "GET /empty.txt HTTP/1.1\r\n\r\n"))) = some [] := by
    decide
  have hhandle : handle emptyFile [ascii "srv"] (ascii "GET /empty.txt HTTP/1.1\r\n\r\n") =
      notFound := by
    decide
  refine ⟨hread, hhandle, ?_⟩
  rw [Delivers, hread, hhandle]
  rintro ⟨reply, hreply, hstatus, -⟩
  exact status_notFound hreply hstatus

end RequestHandler

end BuildYourOwnStuff.HttpServer
