import Reaper.Api.Server
import Reaper.Json.Printer

/-!
A server that answers by a script.

A rule says which requests it covers and lists replies, which are used one after the other, the last of them for ever.
The first rule that covers a request answers it. What is not covered is not found, and changes that nobody tells of
never come. The script keeps a log of the requests.
-/

namespace Reaper.Api

/-- A reply of a script. -/
inductive ScriptedReply where
  | answer (status : Nat) (body : String)
  /-- the content of the request -/
  | echo
  | unreachable (text : String)
  /-- never a reply -/
  | silence
  | feed (f : Feed)
  deriving Repr

/-- Which requests are answered, and how. -/
structure Rule where
  method : Method
  /-- a final star stands for any continuation -/
  path : String
  /-- for requests to be told of changes, or for all others -/
  follows : Bool
  replies : List ScriptedReply
  used : Nat := 0
  deriving Repr

/-- The rules, and the requests so far, the last one first. -/
structure Script where
  rules : List Rule
  log : List Request := []
  deriving Repr

namespace Rule

def covers (r : Rule) (q : Request) : Bool :=
  let path := r.path.toList
  r.method = q.method && r.follows == q.follows &&
    if path.getLast? = some '*' then path.dropLast.isPrefixOf q.sentPath.toList else r.path == q.sentPath

/-- The reply that is next. -/
def reply? (r : Rule) : Option ScriptedReply := r.replies[min r.used (r.replies.length - 1)]?

end Rule

namespace ScriptedReply

/-- The account of an object that is not there. -/
def notFound : ScriptedReply :=
  .answer 404 "\x7b\"status\":\"Failure\",\"message\":\"not found\",\"reason\":\"NotFound\",\"code\":404\x7d"

/-- The reply as the response to a request; none if there is never one. -/
def response? (q : Request) : ScriptedReply → Option Response
  | answer status body => some (.answered status body)
  | echo => some (.answered 200 ((q.content.map fun c => c.2.text).getD ""))
  | unreachable text => some (.unreachable text)
  | silence => none
  | feed _ => none

/-- The lines of a text, without the line feed or the carriage return and line feed that end each. -/
def lines (text : String) : List String :=
  (text.splitOn "\n").map fun line => if line.back? = some '\r' then (line.dropEnd 1).toString else line

/-- The reply to a request to be told of changes. What is no feed is a stream of lines, whatever its status. -/
def feed? : ScriptedReply → Option (Except Fault Feed)
  | answer _ body => some (.ok { messages := lines body, ends := true })
  | echo => some (.ok { ends := true })
  | unreachable text => some (.error (.service text))
  | silence => none
  | feed f => some (.ok f)

end ScriptedReply

namespace Script

def reply (q : Request) (s : Script) : ScriptedReply × Script :=
  let s := { s with log := q :: s.log }
  match s.rules.findIdx? (·.covers q) with
  | none => (if q.follows then .silence else .notFound, s)
  | some i =>
    let reply := (s.rules[i]?).bind Rule.reply?
    (reply.getD .notFound, { s with rules := s.rules.modify i fun r => { r with used := r.used + 1 } })

def answer (q : Request) (s : Script) : Option Response × Script :=
  let (reply, s) := s.reply q
  (reply.response? q, s)

/-- Answers a request to be told of changes. -/
def follow (q : Request) (s : Script) : Option (Except Fault Feed) × Script :=
  let (reply, s) := s.reply q
  (reply.feed?, s)

def server : Server Script := ⟨answer, follow⟩

end Script

end Reaper.Api
