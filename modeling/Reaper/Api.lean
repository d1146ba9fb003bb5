import Reaper.Fault
import Reaper.Json.Decode
import Reaper.Json.Reader
import Reaper.Program

/-!
Talking to the API server.

An exchange is a program whose questions are requests and whose answers are responses, so what is sent and how replies
are understood is stated here, and who answers is left open. A response is read into content or a fault: a status of an
error carries the server's own account of it, or else its text is taken as the message.
-/

namespace Reaper.Api

/-- What is to be done with a resource. -/
inductive Method where
  | get
  | post
  | put
  | patch
  | delete
  deriving DecidableEq, Repr

def Method.text : Method → String
  | get => "GET"
  | post => "POST"
  | put => "PUT"
  | patch => "PATCH"
  | delete => "DELETE"

/-- The forms in which content is sent. -/
inductive MediaType where
  | json
  /-- a patch by merging -/
  | mergePatch
  /-- a patch as a list of operations -/
  | jsonPatch
  deriving DecidableEq, Repr

def MediaType.text : MediaType → String
  | json => "application/json"
  | mergePatch => "application/merge-patch+json"
  | jsonPatch => "application/json-patch+json"

/-- A request to the server. The path is taken as it is, whatever characters it holds. -/
structure Request where
  method : Method
  path : String
  /-- whether the path is sent without a question mark behind it -/
  bare : Bool := false
  /-- names and values as they are meant, not yet encoded -/
  query : List (String × String) := []
  content : Option (MediaType × Json) := none
  deriving Repr

/-- What comes back for a request. -/
inductive Response where
  | answered (status : Nat) (body : String)
  | unreachable (text : String)
  deriving DecidableEq, Repr

/-- A program that sends requests. -/
abbrev Exchange (α : Type) := Program Request (fun _ => Response) α

/-! ## Encoding -/

/-- A byte that a query value holds as it is. -/
def isPlainByte (b : UInt8) : Bool :=
  let c := Char.ofNat b.toNat
  c.isAlphanum || c = '*' || c = '-' || c = '.' || c = '_'

/-- A query name or value as it is sent: a blank as a plus sign, other special bytes in hexadecimal. -/
def encodeQuery (s : String) : String :=
  String.join (s.toUTF8.toList.map fun b =>
    if isPlainByte b then (Char.ofNat b.toNat).toString
    else if b = 32 then "+"
    else "%" ++ String.ofList ((Text.paddedHex 2 b.toNat).map Char.toUpper))

namespace Request

/-- What is asked for, as it is sent: the path with the query behind it. -/
def target (q : Request) : String :=
  q.path ++ (if q.bare then "" else "?") ++
    String.join (q.query.map fun (k, v) => "&" ++ encodeQuery k ++ "=" ++ encodeQuery v)

/-- The parts of a target: the path up to a question mark, and the query up to a number sign. -/
def targetParts (target : String) : List Char × List Char :=
  let read := target.toList.takeWhile (· ≠ '#')
  (read.takeWhile (· ≠ '?'), (read.dropWhile (· ≠ '?')).drop 1)

/-- The path that the server sees. -/
def sentPath (q : Request) : String := String.ofList (targetParts q.target).1

/-- The parts of the query that the server sees. -/
def sentQuery (q : Request) : List String :=
  ((String.ofList (targetParts q.target).2).splitOn "&").filter (· ≠ "")

/-- A character that a path may hold. -/
def isPathChar (c : Char) : Bool :=
  let n := c.toNat
  (0x21 ≤ n && n < 0x7F && !"#<>?\x60".toList.contains c) || 0x80 ≤ n

/-- A character that a query may hold. -/
def isQueryChar (c : Char) : Bool :=
  let n := c.toNat
  (0x21 ≤ n && n < 0x7F && !"\x22#<>".toList.contains c) || 0x80 ≤ n

/-- The greatest number of bytes of a target. -/
def targetLimit : Nat := 65534

/-- Why the request cannot be sent. -/
def obstacle? (q : Request) : Option String :=
  let (path, query) := targetParts q.target
  if targetLimit < q.target.utf8ByteSize then some "failed to build request: uri too long"
  else if path.all isPathChar && query.all isQueryChar then none
  else some "failed to build request: invalid uri character"

end Request

/-! ## Responses -/

/-- The phrases that go with the codes of errors. -/
def statusPhrases : List (Nat × String) :=
  [(400, "Bad Request"), (401, "Unauthorized"), (402, "Payment Required"), (403, "Forbidden"), (404, "Not Found"),
    (405, "Method Not Allowed"), (406, "Not Acceptable"), (407, "Proxy Authentication Required"),
    (408, "Request Timeout"), (409, "Conflict"), (410, "Gone"), (411, "Length Required"),
    (412, "Precondition Failed"), (413, "Payload Too Large"), (414, "URI Too Long"), (415, "Unsupported Media Type"),
    (416, "Range Not Satisfiable"), (417, "Expectation Failed"), (418, "I'm a teapot"), (421, "Misdirected Request"),
    (422, "Unprocessable Entity"), (423, "Locked"), (424, "Failed Dependency"), (425, "Too Early"),
    (426, "Upgrade Required"), (428, "Precondition Required"), (429, "Too Many Requests"),
    (431, "Request Header Fields Too Large"), (451, "Unavailable For Legal Reasons"), (500, "Internal Server Error"),
    (501, "Not Implemented"), (502, "Bad Gateway"), (503, "Service Unavailable"), (504, "Gateway Timeout"),
    (505, "HTTP Version Not Supported"), (506, "Variant Also Negotiates"), (507, "Insufficient Storage"),
    (508, "Loop Detected"), (510, "Not Extended"), (511, "Network Authentication Required")]

def statusText (code : Nat) : String :=
  Text.natText code ++ " " ++ (statusPhrases.lookup code).getD "<unknown status code>"

/-- The server's own account of an error. -/
def errorOf? (j : Json) : Option Fault := do
  let r ← j.record? ["status", "message", "reason", "code"]
  let status ← r.required? "status" Json.text?
  let message ← r.defaulted? "message" "" Json.text?
  let reason ← r.defaulted? "reason" "" Json.text?
  let code ← r.required? "code" (Json.natural? 65535)
  some (.api status message reason code)

/-- The fault that a status of an error with some text stands for. -/
def faultOf (status : Nat) (body : String) : Fault :=
  ((Json.draft? body).bind errorOf?).getD
    (.api (statusText status) (Text.quoted body) "Failed to parse error data" status)

/-- A code that stands for an error. -/
def isErrorStatus (code : Nat) : Bool := 400 ≤ code && code < 600

namespace Response

/-- The text of a response that is no error. -/
def body : Response → Except Fault String
  | unreachable text => .error (.service text)
  | answered status text => if isErrorStatus status then .error (faultOf status text) else .ok text

/-- The content of a response, read by a decoder. -/
def decode {α : Type} (d : Json.Decoder α) (r : Response) : Except Fault α := do
  match (Json.draft? (← r.body)).bind d with
  | some a => .ok a
  | none => .error .undecodable

end Response

/-- Sends a request and reads what comes back. -/
def call {α : Type} (q : Request) (read : Response → Except Fault α) : Exchange (Except Fault α) :=
  match q.obstacle? with
  | some text => pure (.error (.unsendable text))
  | none => do return read (← Program.query q)

/-- The fault of a call on an object without a name, which would reach all objects of its kind. -/
def noName : Fault := .unsendable "failed to validate request: A non-empty name is required"

/-- Sends a request about one object, which must have a name. -/
def callNamed {α : Type} (name : String) (q : Request) (read : Response → Except Fault α) :
    Exchange (Except Fault α) :=
  if name.isEmpty then pure (.error noName) else call q read

/-- An object that must name a certain type wherever it names one. -/
def isOfType (apiVersion kind : String) (j : Json) : Bool :=
  let agrees (key expected : String) : Bool := (j.occurrences key).all fun v => v.text? == some expected
  agrees "apiVersion" apiVersion && agrees "kind" kind

end Reaper.Api
