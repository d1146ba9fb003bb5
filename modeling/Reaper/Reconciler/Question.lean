import Reaper.Evaluation
import Reaper.Program
import Reaper.Registry
import Reaper.Settings

/-!
What reconciling asks: of its own stores, and of the world outside.
-/

namespace Reaper

/-- When a policy last began a pass, and with which specification. -/
structure PassRecord where
  spec : PolicySpec
  started : Instant
  deriving Repr

/-- One question of a reconciler. -/
inductive Question where
  /-- whether this replica leads -/
  | isLeader
  /-- the time of day -/
  | now
  /-- the record of a policy's last pass -/
  | lastPass (uid : String)
  | remember (uid : String) (record : PassRecord)
  | forget (uid : String)
  /-- forgets the passes of all but the living -/
  | forgetOthers (live : List String)
  | state (uid : String)
  | setState (uid : String) (s : PolicyState)
  | ensure (uid : String) (target : WatchTarget) (rate : Nat)
  | handles (uid : String)
  | remove (uid : String)
  | prune (live : List String)
  /-- the resources that a watch knows of -/
  | snapshot (handles : Handles)
  /-- one pass of a policy -/
  | evaluate (policy : Policy) (handles : Handles)
  | notify (ref : PolicyRef) (notice : Notice)
  | writeStatus (ref : PolicyRef) (status : PolicyStatus)
  /-- a patch of a policy in a namespace, as a list of operations -/
  | patch («namespace» name : String) (operations : Json)
  /-- what has no answer: the program cannot go on -/
  | halt

abbrev Question.Answer : Question → Type
  | isLeader => Bool
  | now => Instant
  | lastPass _ => Option PassRecord
  | remember _ _ => Unit
  | forget _ => Unit
  | forgetOthers _ => Unit
  | state _ => PolicyState
  | setState _ _ => Unit
  | ensure _ _ _ => Except ServeError EnsureOutcome
  | handles _ => Option Handles
  | remove _ => Bool
  | prune _ => List String
  | snapshot _ => List Resource
  | evaluate _ _ => PassResult
  | notify _ _ => Unit
  | writeStatus _ _ => Unit
  | patch _ _ _ => Except Fault Unit
  | halt => Empty

/-- A program of the reconciler. -/
abbrev Reconciling (α : Type) := Program Question Question.Answer α

namespace Reconciling

def ask (q : Question) : Reconciling q.Answer := Program.query q

/-- Goes on with a value, or not at all if there is none. -/
def require {α : Type} : Option α → Reconciling α
  | some a => pure a
  | none => do nomatch ← ask .halt

end Reconciling

end Reaper
