import Reaper.Api
import Reaper.Time.Millis

/-!
Servers: who answers requests.

A server answers a request at once or never. A request to be told of changes is answered by a feed: messages, a line of
text each, that come after some time.
-/

namespace Reaper.Api

/-- Messages that come after some time; then the stream ends, or it stays open without further messages. -/
structure Feed where
  delay : Millis := 0
  messages : List String := []
  ends : Bool := false
  deriving Repr

/-- The request asks to be told of changes. -/
def Request.follows (q : Request) : Bool := q.sentQuery.contains "watch=true"

/-- Who answers requests; none where there is never a reply. -/
structure Server (σ : Type) where
  answer : Request → σ → Option Response × σ
  /-- answers a request to be told of changes -/
  follow : Request → σ → Option (Except Fault Feed) × σ

/-- Runs an exchange with a server. -/
def Server.run {σ α : Type} (s : Server σ) (p : Exchange α) (world : σ) : Option α × σ := p.serve s.answer world

end Reaper.Api
