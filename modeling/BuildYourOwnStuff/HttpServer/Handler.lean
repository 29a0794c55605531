import BuildYourOwnStuff.CppStd.CString
import BuildYourOwnStuff.Foundations.FileTrees

/-!
# Responses to requests

`RequestHandler::handle` takes the path out of the request, puts `static` before it and
sends the file that the system finds there. The system follows the components of the
path from the working directory of the server.
-/

namespace BuildYourOwnStuff.HttpServer

open Foundations CppStd GoStd

/-- Files and directories by their names, without symbolic links. -/
abbrev FileSystem := FileTree Bytes Bytes

/-- An empty component stays where it is, too. -/
def component (name : Bytes) : Move Bytes :=
  if name = [] ∨ name = ascii "." then .stay
  else if name = ascii ".." then .up
  else .down name

/-- The moves of a relative path; the system takes it as a C string. -/
def resolve (path : Bytes) : List (Move Bytes) :=
  ((cString path).splitOn 0x2F).map component

namespace FileUtils

def endsWith (str suffix : Bytes) : Bool :=
  str.length ≥ suffix.length && str.drop (str.length - suffix.length) == suffix

/-- Nothing can be read from a directory, and a file that is not there is read as empty. -/
def readFile (fs : FileSystem) (cwd : List Bytes) (path : Bytes) : Bytes :=
  (fs.read cwd (resolve path)).getD []

def getMimeType (path : Bytes) : Bytes :=
  if endsWith path (ascii ".html") then ascii "text/html"
  else if endsWith path (ascii ".css") then ascii "text/css"
  else if endsWith path (ascii ".js") then ascii "application/javascript"
  else if endsWith path (ascii ".png") then ascii "image/png"
  else if endsWith path (ascii ".jpg") then ascii "image/jpeg"
  else if endsWith path (ascii ".ico") then ascii "image/x-icon"
  else ascii "text/plain"

end FileUtils

namespace RequestHandler

/-- The second word of the request; it is empty if there is none. -/
def requestPath (rawRequest : Bytes) : Bytes :=
  let method := extract rawRequest
  let path := extract method.2
  if path.1 = ascii "/" then ascii "/index.html" else path.1

def fullPath (rawRequest : Bytes) : Bytes := ascii "static" ++ requestPath rawRequest

def notFound : Bytes :=
  ascii "HTTP/1.1 404 Not Found\r\nContent-Type: text/plain\r\n\r\nFile Not Found"

def ok (mime content : Bytes) : Bytes :=
  ascii "HTTP/1.1 200 OK\r\nContent-Type: " ++ mime ++ ascii "\r\nContent-Length: " ++
    decimal content.length ++ ascii "\r\n\r\n" ++ content

/-- The response of a server with the working directory `cwd`. -/
def handle (fs : FileSystem) (cwd : List Bytes) (rawRequest : Bytes) : Bytes :=
  let content := FileUtils.readFile fs cwd (fullPath rawRequest)
  if content = [] then notFound
  else ok (FileUtils.getMimeType (fullPath rawRequest)) content

theorem ok_ne_notFound (mime content : Bytes) : ok mime content ≠ notFound := by
  intro h
  have htake := congrArg (List.take 10) h
  simp only [ok, List.append_assoc] at htake
  rw [List.take_append_of_le_length (by decide)] at htake
  exact absurd htake (by decide)

theorem handle_of_read_none {fs : FileSystem} {cwd : List Bytes} {rawRequest : Bytes}
    (h : fs.read cwd (resolve (fullPath rawRequest)) = none) :
    handle fs cwd rawRequest = notFound := by
  rw [handle, FileUtils.readFile, h]
  rfl

theorem handle_ne_notFound {fs : FileSystem} {cwd : List Bytes} {rawRequest : Bytes} {b : UInt8}
    {rest : Bytes} (h : fs.read cwd (resolve (fullPath rawRequest)) = some (b :: rest)) :
    handle fs cwd rawRequest ≠ notFound := by
  rw [handle, FileUtils.readFile, h]
  exact ok_ne_notFound _ _

/-- What is read is all that a response has from the file system. -/
theorem handle_congr {fs fs' : FileSystem} {cwd : List Bytes} {rawRequest : Bytes}
    (h : fs.read cwd (resolve (fullPath rawRequest)) =
      fs'.read cwd (resolve (fullPath rawRequest))) :
    handle fs cwd rawRequest = handle fs' cwd rawRequest := by
  rw [handle, handle, FileUtils.readFile, FileUtils.readFile, h]

end RequestHandler

end BuildYourOwnStuff.HttpServer
