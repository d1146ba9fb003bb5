import Reaper.Reconciler.Question

/-!
Reconciling: bringing what is held for a policy in line with the policy.

`apply` is one visit of a policy. A replica that does not lead lets go of the policy; a policy that is not due is left
alone; otherwise the policy gets its watch and limiter, is surveyed or passed over, and its new status is written. A
visit that ran is remembered before anything else happens. `reconcile` is what happens when a policy has changed: a
policy must carry the finalizer before it is applied, and the finalizer goes only after everything has been let go.
-/

namespace Reaper

/-- What one visit did. -/
structure Visit where
  state : PolicyState
  /-- none when nothing was surveyed -/
  result : Option PassResult
  requeueAfter : Duration
  deriving DecidableEq, Repr

/-- When a policy is to be reconciled again. -/
inductive Requeue where
  | after (d : Duration)
  | onChange
  deriving DecidableEq, Repr

namespace PolicyState

/-- The phase that is reported for a state. -/
def phase? : PolicyState → Option PolicyPhase
  | notTracked => none
  | active => some .active
  | paused => some .paused
  | error => some .error

end PolicyState

def Notice.phaseChanged (previous next : PolicyState) : Notice :=
  ⟨if next = .error then .warning else .normal, "PhaseChanged",
    "Phase changed from " ++ previous.text ++ " to " ++ next.text⟩

namespace Settings

/-- When a replica that does not lead visits a policy again: as soon as leadership may have changed. -/
def followerRequeue (s : Settings) : Duration :=
  min s.gcInterval (Duration.ofSecs (max s.election.renewIntervalSeconds 1))

def rateFor (s : Settings) (p : Policy) : Nat :=
  Bucket.effectiveRate p.spec.behavior.maxDeletionsPerSecond s.defaultMaxDeletionsPerSecond

/-- How passes are run under the settings. -/
def evaluator (s : Settings) (word : Nat → Nat → Nat) : Evaluator :=
  { retry := s.retry.policy, defaultBatchSize := s.defaultBatchSize, dryRun := s.dryRun, word }

end Settings

namespace PassResult

/-- What the status says about a pass. -/
def summary (r : PassResult) : String :=
  match r.firstError with
  | some first => Text.natText r.failed ++ " deletion(s) failed; first error: " ++ first
  | none =>
    if r.cancelled then "Evaluation interrupted"
    else
      "Matched " ++ Text.natText r.matched ++ " resource(s), deleted " ++ Text.natText r.deleted ++ ", pending " ++
        Text.natText r.pending

def notices (r : PassResult) : List Notice :=
  (if 0 < r.deleted then [.resourceDeleted r.deleted] else []) ++ (if 0 < r.dryRun then [.dryRun r.dryRun] else [])

end PassResult

namespace Policy

/-- The structural problems that have not been reported for this generation of the policy. -/
def unreportedProblems (p : Policy) : List PolicyProblem :=
  let observed := p.status.bind (·.observedGeneration)
  if observed.isSome && observed == p.metadata.generation then [] else p.spec.problems

/-- How many resources have been deleted for the policy after another pass, if the count still has 64 bits. A build that
checks its arithmetic for overflow fails where there is none; in one that does not, the count wraps around. -/
def totalAfter? (p : Policy) (deleted : Nat) : Option Nat :=
  some ((p.status.map (·.totalDeleted)).getD 0 + deleted) |>.filter (· < UInt64.size)

/-- The status after a visit at an instant. -/
def statusAfter? (p : Policy) (interval : Duration) (now : Instant) (state : PolicyState) (r : PassResult)
    (message : String) : Option PolicyStatus :=
  (p.totalAfter? r.deleted).map fun totalDeleted =>
    { phase := state.phase?
      message := some message
      resourcesMatched := r.matched
      resourcesDeleted := r.deleted
      resourcesPending := r.pending
      totalDeleted
      lastRunTime := some now.toText
      nextRunTime := (now.add? interval.nanos).map (·.toText)
      observedGeneration := p.metadata.generation }

def isTerminating (p : Policy) : Bool := p.metadata.deletionTimestamp.isSome

def finalizers (p : Policy) : List String := p.metadata.finalizers.getD []

/-- The patch that adds the finalizer, unless somebody has changed the finalizers meanwhile. -/
def addFinalizer (p : Policy) : Json :=
  let operation (op path : String) (value : Json) : Json :=
    Json.ofFields [("op", .string op), ("path", .string path), ("value", value)]
  if p.finalizers.isEmpty then
    .array
      [operation "test" "/metadata/finalizers" .null,
        operation "add" "/metadata/finalizers" (.array [.string finalizer])]
  else
    .array
      [operation "test" "/metadata/finalizers" (.array (p.finalizers.map .string)),
        operation "add" "/metadata/finalizers/-" (.string finalizer)]

/-- The patch that takes the finalizer at a place away, unless another one is there by now. -/
def removeFinalizer (i : Nat) : Json :=
  let path := "/metadata/finalizers/" ++ Text.natText i
  .array
    [Json.ofFields [("op", .string "test"), ("path", .string path), ("value", .string finalizer)],
      Json.ofFields [("op", .string "remove"), ("path", .string path)]]

end Policy

/-- The time that is left before a pass is due again; none when it is due. -/
def PassRecord.wait? (record : PassRecord) (interval : Duration) (now : Instant) : Option Duration :=
  (interval.sub? (now.elapsedSince record.started)).filter (·.nanos ≠ 0)

namespace Reconciling

variable (c : Settings)

def notifyAll (ref : PolicyRef) : List Notice → Reconciling Unit
  | [] => pure ()
  | notice :: rest => do
    ask (.notify ref notice)
    notifyAll ref rest

/-- Enters a state and reports it if it is another one. -/
def transition (ref : PolicyRef) (previous next : PolicyState) : Reconciling Unit := do
  ask (.setState ref.uid next)
  if previous ≠ next then ask (.notify ref (.phaseChanged previous next))

def writeStatus (p : Policy) (ref : PolicyRef) (state : PolicyState) (r : PassResult) (message : String) :
    Reconciling Unit := do
  let now ← ask .now
  ask (.writeStatus ref (← require (p.statusAfter? c.gcInterval now state r message)))

/-- Ends a visit of a policy that cannot be served. -/
def fail (p : Policy) (ref : PolicyRef) (previous : PolicyState) (e : ServeError) : Reconciling Visit := do
  transition ref previous .error
  ask (.notify ref (.watchFailed e.message))
  writeStatus c p ref .error {} e.message
  pure ⟨.error, none, c.gcInterval⟩

/-- The time left before a policy is due; none when it is due, as it is whenever its specification has changed. -/
def wait (p : Policy) (ref : PolicyRef) : Reconciling (Option Duration) := do
  match ← ask (.lastPass ref.uid) with
  | none => pure none
  | some record =>
    if record.spec = p.spec then pure (record.wait? c.gcInterval (← ask .now)) else pure none

/-- What is held for a paused policy: the watch that it has, on the present target. -/
def pausedHandles (p : Policy) (ref : PolicyRef) (target : WatchTarget) :
    Reconciling (Except ServeError (Option Handles)) := do
  match ← ask (.handles ref.uid) with
  | none => pure (.ok none)
  | some h =>
    if h.target = target then pure (.ok (some h))
    else
      match ← ask (.ensure ref.uid target (c.rateFor p)) with
      | .error e => pure (.error e)
      | .ok _ => do pure (.ok (← ask (.handles ref.uid)))

/-- A survey of what a watch knows of. -/
def scan (p : Policy) (h : Handles) : Reconciling PassResult := do
  let now ← ask .now
  pure (Evaluator.scan p h.target now (← ask (.snapshot h)))

/-- Visits a paused policy: nothing is deleted. -/
def visitPaused (p : Policy) (ref : PolicyRef) (previous : PolicyState) (target : WatchTarget) : Reconciling Visit := do
  match ← pausedHandles c p ref target with
  | .error e => fail c p ref previous e
  | .ok handles =>
    let result ← match handles with
      | some h => scan p h
      | none => pure {}
    transition ref previous .paused
    writeStatus c p ref .paused result "Policy is paused; deletions are suspended"
    pure ⟨.paused, some result, c.gcInterval⟩

def visitActive (p : Policy) (ref : PolicyRef) (previous : PolicyState) (target : WatchTarget) : Reconciling Visit := do
  match ← ask (.ensure ref.uid target (c.rateFor p)) with
  | .error e => fail c p ref previous e
  | .ok _ =>
    match ← ask (.handles ref.uid) with
    | none => fail c p ref previous (.watch (.stopped target.label))
    | some h =>
      let result ← ask (.evaluate p h)
      transition ref previous .active
      notifyAll ref result.notices
      writeStatus c p ref .active result result.summary
      pure ⟨.active, some result, c.gcInterval⟩

/-- Visits a policy whose target has been determined. -/
def visitTarget (p : Policy) (ref : PolicyRef) (previous : PolicyState) :
    Except TargetError WatchTarget → Reconciling Visit
  | .error e => fail c p ref previous (.target e)
  | .ok target => if p.spec.paused then visitPaused c p ref previous target else visitActive c p ref previous target

/-- Visits a policy that is due. -/
def visit (p : Policy) (ref : PolicyRef) (previous : PolicyState) : Reconciling Visit := do
  ask (.remember ref.uid ⟨p.spec, ← ask .now⟩)
  let problems := p.unreportedProblems
  if !problems.isEmpty then ask (.notify ref (.invalidPolicy (problems.map (·.message))))
  visitTarget c p ref previous (← require (WatchTarget.ofPolicy? p))

/-- One visit of a policy. -/
def apply (p : Policy) : Reconciling (Except ServeError Visit) := do
  match PolicyRef.ofPolicy p with
  | .error key => pure (.error (.missingKey key))
  | .ok ref =>
    if !(← ask .isLeader) then
      ask (.forget ref.uid)
      discard (ask (.remove ref.uid))
      pure (.ok ⟨.notTracked, none, c.followerRequeue⟩)
    else
      let previous ← ask (.state ref.uid)
      match ← wait c p ref with
      | some left => pure (.ok ⟨previous, none, left⟩)
      | none => do pure (.ok (← visit c p ref previous))

/-- Lets go of all that is held for a policy. -/
def teardown (uid : String) : Reconciling Bool := do
  ask (.forget uid)
  ask (.remove uid)

/-- Lets go of all policies that are not among the living. -/
def prune (live : List String) : Reconciling (List String) := do
  ask (.forgetOthers live)
  ask (.prune live)

/-- Lets go of a policy that has an identity. -/
def release (p : Policy) : Reconciling Unit :=
  match p.metadata.uid with
  | some uid => discard (teardown uid)
  | none => pure ()

/-- The finalizer protocol for a policy in a namespace. -/
def finalize (p : Policy) (ns : String) : Reconciling (Except ServeError Requeue) := do
  match p.finalizers.idxOf? Policy.finalizer, p.isTerminating with
  | some _, false => do pure ((← apply c p).map fun v => .after v.requeueAfter)
  | some i, true =>
    match p.metadata.name with
    | none => pure (.error (.missingKey ".metadata.name"))
    | some name =>
      release p
      match ← ask (.patch ns name (Policy.removeFinalizer i)) with
      | .error fault => pure (.error (.api fault))
      | .ok () => pure (.ok .onChange)
  | none, false =>
    match p.metadata.name with
    | none => pure (.error (.missingKey ".metadata.name"))
    | some name =>
      match ← ask (.patch ns name p.addFinalizer) with
      | .error fault => pure (.error (.api fault))
      | .ok () => pure (.ok .onChange)
  | none, true => pure (.ok .onChange)

/-- Reconciles a policy that has changed or is to be visited again. A replica that does not lead lets go of it and sends
nothing. -/
def reconcile (p : Policy) : Reconciling (Except ServeError Requeue) := do
  if !(← ask .isLeader) then
    release p
    pure (.ok (.after c.followerRequeue))
  else
    match p.metadata.namespace with
    | none => pure (.error (.missingKey ".metadata.namespace"))
    | some ns => finalize c p ns

/-- When a policy whose reconciliation failed is tried again. -/
def requeueAfterError : Requeue := .after c.gcInterval

end Reconciling

end Reaper
