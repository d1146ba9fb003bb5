import Reaper.Cluster

/-!
What the threads of a controller wait for.

A thread that opens a watch waits for an informer to get ready, and a thread in a pass waits for its deletions. Both are
taken step by step, so that other threads can go on in between.
-/

namespace Reaper

/-- What a policy is called by. -/
abbrev PolicyKey := Option String × Option String

def Policy.key (p : Policy) : PolicyKey := (p.metadata.namespace, p.metadata.name)

/-- A pass that is under way. -/
structure PassInProgress where
  policy : Policy
  handles : Handles
  survey : Survey
  plan : PassPlan
  /-- without the world, which other threads change too -/
  schedule : Schedule Unit

namespace PassInProgress

/-- Begins a pass over a snapshot. -/
def begin (e : Evaluator) (p : Policy) (h : Handles) (now : Instant) (snapshot : List Resource) (bucket : Bucket)
    (clock : Millis) (cancelAt : Option Millis) : PassInProgress :=
  let survey := Survey.of p.spec h.target.namespace now snapshot
  let plan := e.plan p.spec.behavior survey.expired
  { policy := p, handles := h, survey, plan, schedule := .start plan bucket clock cancelAt () }

/-- When the pass goes on; none if it never does. -/
def wake? (now : Millis) (o : PassInProgress) : Option Millis :=
  if !o.schedule.ready.isEmpty || o.schedule.pass.isSettled || o.schedule.pass.isStranded then some now
  else o.schedule.next?.map (max now)

/-- The pass with a token that fires now, unless it has fired. -/
def cancel (now : Millis) (o : PassInProgress) : PassInProgress :=
  { o with schedule := { o.schedule with cancelAt := some now } }

def result (o : PassInProgress) : PassResult := .tally o.survey (o.schedule.pass.settlements.reverse.map (·.2))

end PassInProgress

/-- What a thread waits for. -/
inductive Activity where
  | none
  | opening (o : Opening)
  | passing (o : PassInProgress)

/-- What a thread is for: a visit of a policy, or letting go of those that have vanished. -/
structure Job where
  key : Option PolicyKey
  activity : Activity := .none

end Reaper
