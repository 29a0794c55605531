import BuildYourOwnStuff.HttpServer.Handler

/-!
# How requests arrive

The server answers what its first call of `recv` returns. So the response to a request
that arrives in several portions is that to the first portion, and it is the response
to the request exactly if the two paths are served alike.
-/

namespace BuildYourOwnStuff.HttpServer

open Foundations CppStd GoStd

/-- The capacity of `buffer` without its last byte. -/
def capacity : ℕ := 4095

/-- One call of `recv`, when the bytes arrive in these portions, as a C string. -/
def readRequest (portions : List Bytes) : Bytes := cString ((portions.headD []).take capacity)

/-- What `handle_client` sends. -/
def handleClient (fs : FileSystem) (cwd : List Bytes) (portions : List Bytes) : Bytes :=
  RequestHandler.handle fs cwd (readRequest portions)

/-- Nothing is ever found at the two paths, or they lead to the same file and give it the
same type. -/
def ServedAlike (cwd : List Bytes) (path path' : Bytes) : Prop :=
  DeadEnd [] cwd (resolve path) ∧ DeadEnd [] cwd (resolve path') ∨
    SameFile cwd (resolve path) (resolve path') ∧
      FileUtils.getMimeType path = FileUtils.getMimeType path'

theorem servedAlike_refl (cwd : List Bytes) (path : Bytes) : ServedAlike cwd path path :=
  .inr ⟨SameFile.refl cwd (resolve path), rfl⟩

namespace RequestHandler

theorem handle_of_read_some {fs : FileSystem} {cwd : List Bytes} {rawRequest content : Bytes}
    (hne : content ≠ []) (h : fs.read cwd (resolve (fullPath rawRequest)) = some content) :
    handle fs cwd rawRequest = ok (FileUtils.getMimeType (fullPath rawRequest)) content := by
  rw [handle, FileUtils.readFile, h]
  exact if_neg hne

theorem handle_of_deadEnd (fs : FileSystem) {cwd : List Bytes} {rawRequest : Bytes}
    (h : DeadEnd [] cwd (resolve (fullPath rawRequest))) :
    handle fs cwd rawRequest = notFound :=
  handle_of_read_none (fs.read_of_deadEnd fs.root h)

theorem ok_injective_mime {mime mime' content : Bytes} (h : ok mime content = ok mime' content) :
    mime = mime' := by
  simp only [ok, List.append_assoc, List.append_cancel_left_eq] at h
  exact List.append_cancel_right h

theorem handle_eq_of_servedAlike {cwd : List Bytes} {r r' : Bytes}
    (h : ServedAlike cwd (fullPath r) (fullPath r')) (fs : FileSystem) :
    handle fs cwd r = handle fs cwd r' := by
  rcases h with ⟨hend, hend'⟩ | ⟨hsame, hmime⟩
  · rw [handle_of_deadEnd fs hend, handle_of_deadEnd fs hend']
  · rw [handle, handle, FileUtils.readFile, FileUtils.readFile, fs.read_eq_of_sameFile hsame, hmime]

/-- Where something can be found, equal responses come from the same file. -/
theorem sameFile_of_handle_eq {cwd : List Bytes} {r r' : Bytes}
    (hend : ¬ DeadEnd [] cwd (resolve (fullPath r)))
    (h : ∀ fs, handle fs cwd r = handle fs cwd r') :
    ¬ DeadEnd [] cwd (resolve (fullPath r')) ∧
      destination cwd (resolve (fullPath r)) = destination cwd (resolve (fullPath r')) ∧
      NeedsNoMore cwd (resolve (fullPath r')) (resolve (fullPath r)) ∧
      FileUtils.getMimeType (fullPath r) = FileUtils.getMimeType (fullPath r') := by
  obtain ⟨fs, hread, hothers⟩ := FileTree.exists_read_eq_some hend (ascii "content")
  have hok := handle_of_read_some (by decide) hread
  rw [h fs] at hok
  have hfound : fs.read cwd (resolve (fullPath r')) ≠ none := by
    intro hnone
    rw [handle_of_read_none hnone] at hok
    exact ok_ne_notFound _ _ hok.symm
  obtain ⟨content', hread'⟩ := Option.ne_none_iff_exists'.mp hfound
  obtain ⟨rfl, hplace, hneeds⟩ := hothers _ content' hread'
  refine ⟨fun hend' => hfound (fs.read_of_deadEnd fs.root hend'), hplace, hneeds, ?_⟩
  rw [handle_of_read_some (by decide) hread'] at hok
  exact (ok_injective_mime hok).symm

/-- The responses to two requests are the same for all file trees exactly if their paths
are served alike. -/
theorem handle_eq_iff_servedAlike {cwd : List Bytes} {r r' : Bytes} :
    (∀ fs, handle fs cwd r = handle fs cwd r') ↔ ServedAlike cwd (fullPath r) (fullPath r') := by
  constructor
  · intro h
    have h' : ∀ fs, handle fs cwd r' = handle fs cwd r := fun fs => (h fs).symm
    by_cases hend : DeadEnd [] cwd (resolve (fullPath r))
    · by_cases hend' : DeadEnd [] cwd (resolve (fullPath r'))
      · exact .inl ⟨hend, hend'⟩
      · exact absurd hend (sameFile_of_handle_eq hend' h').1
    · obtain ⟨hend', hplace, hback, hmime⟩ := sameFile_of_handle_eq hend h
      obtain ⟨-, -, hforth, -⟩ := sameFile_of_handle_eq hend' h'
      exact .inr ⟨⟨hplace, hforth, hback⟩, hmime⟩
  · exact handle_eq_of_servedAlike

end RequestHandler

/-- Bytes after the white space behind a word do not change the word. -/
theorem extract_append {s : Bytes} (h : (extract s).2 ≠ []) (t : Bytes) :
    extract (s ++ t) = ((extract s).1, (extract s).2 ++ t) := by
  simp only [extract, List.span_eq_takeWhile_dropWhile] at h ⊢
  have hword : s.dropWhile isSpace ≠ [] := by
    intro hnil
    rw [hnil] at h
    exact h rfl
  have htake : ((s.dropWhile isSpace).takeWhile fun b => !isSpace b).length ≠
      (s.dropWhile isSpace).length := by
    intro hlength
    have hall := List.takeWhile_append_dropWhile (p := fun b => !isSpace b)
      (l := s.dropWhile isSpace)
    have hsum := congrArg List.length hall
    rw [List.length_append] at hsum
    exact h (List.length_eq_zero_iff.mp (by omega))
  rw [List.dropWhile_append, if_neg (by simpa using hword), List.takeWhile_append, if_neg htake,
    List.dropWhile_append, if_neg (by simpa using h)]

/-- A first portion that goes on after the path is answered as the request. -/
theorem servedAlike_of_path_ended (cwd : List Bytes) {first : Bytes}
    (h : (extract (extract first).2).2 ≠ []) (rest : Bytes) :
    ServedAlike cwd (RequestHandler.fullPath first) (RequestHandler.fullPath (first ++ rest)) := by
  have hmethod : (extract first).2 ≠ [] := by
    intro hnil
    rw [hnil] at h
    exact h rfl
  have hpath : RequestHandler.fullPath (first ++ rest) = RequestHandler.fullPath first := by
    simp only [RequestHandler.fullPath, RequestHandler.requestPath, extract_append hmethod,
      extract_append h]
  rw [hpath]
  exact servedAlike_refl cwd _

theorem readRequest_eq {request : Bytes} {portions : List Bytes} (h : portions.flatten = request)
    (hlength : request.length ≤ capacity) (hzero : 0 ∉ request) :
    readRequest portions = portions.headD [] := by
  have hfirst : portions.headD [] <+: request := by
    rw [← h]
    cases portions with
    | nil => exact List.nil_prefix
    | cons portion portions => exact List.prefix_append portion portions.flatten
  rw [readRequest, List.take_of_length_le (hfirst.length_le.trans hlength)]
  exact cString_eq_self fun hmem => hzero (hfirst.subset hmem)

/-- A request that arrives in portions is answered as if it had arrived at once, whatever
the files are, exactly if the paths of its first portion and of the request are served
alike. -/
theorem unsplit_iff (cwd : List Bytes) (request : Bytes) (hlength : request.length ≤ capacity)
    (hzero : 0 ∉ request) (portions : List Bytes) (hportions : portions.flatten = request) :
    (∀ fs, handleClient fs cwd portions = handleClient fs cwd [request]) ↔
      ServedAlike cwd (RequestHandler.fullPath (portions.headD []))
        (RequestHandler.fullPath request) := by
  have hwhole : readRequest [request] = request :=
    readRequest_eq (by rw [List.flatten_singleton]) hlength hzero
  simp only [handleClient, hwhole, readRequest_eq hportions hlength hzero]
  exact RequestHandler.handle_eq_iff_servedAlike

theorem unsplit_iff_index :
    (∀ fs, handleClient fs [ascii "srv"] [ascii "GET / HTT", ascii "P/1.1\r\n\r\n"] =
        handleClient fs [ascii "srv"] [ascii "GET / HTTP/1.1\r\n\r\n"]) ↔
      ServedAlike [ascii "srv"] (RequestHandler.fullPath (ascii "GET / HTT"))
        (RequestHandler.fullPath (ascii "GET / HTTP/1.1\r\n\r\n")) :=
  unsplit_iff [ascii "srv"] (ascii "GET / HTTP/1.1\r\n\r\n") (by decide) (by decide)
    [ascii "GET / HTT", ascii "P/1.1\r\n\r\n"] (by decide)

/-- The style sheet as the only file. -/
def styleSheet : FileSystem :=
  FileTree.oneFile [ascii "srv", ascii "static", ascii "style.css"] (ascii "p \x7b\x7d") []
    (by decide) (by decide)

/-- A request that is cut in its path finds nothing, although its file is there. -/
theorem split_not_found :
    handleClient styleSheet [ascii "srv"]
        [ascii "GET /style", ascii ".css HTTP/1.1\r\n\r\n"] = RequestHandler.notFound ∧
      handleClient styleSheet [ascii "srv"] [ascii "GET /style.css HTTP/1.1\r\n\r\n"] =
        RequestHandler.ok (ascii "text/css") (ascii "p \x7b\x7d") := by
  decide

end BuildYourOwnStuff.HttpServer
