import Reaper.Lease.Claim

/-!
A claim as calls on the lease.

A claim reads the lease and then makes its move. Here the move is a call with a typed answer (`Candidate.plan`); how the
calls are sent and their replies are read is stated beside it (`Candidate.send`). The two together are the claim
(`Candidate.claim_eq_expand`).
-/

namespace Reaper

/-- What a candidate asks of the server. -/
inductive LeaseCall where
  | read
  | create (l : Lease)
  | replace (l : Lease)

namespace LeaseCall

/-- Reading finds the lease or none; a write comes back as it was kept. -/
def Answer : LeaseCall → Type
  | read => Except Fault (Option Lease)
  | create _ => Except Fault Lease
  | replace _ => Except Fault Lease

/-- The answer when a call fails. -/
def failure (fault : Fault) : (q : LeaseCall) → q.Answer
  | read => .error fault
  | create _ => .error fault
  | replace _ => .error fault

end LeaseCall

/-- A program that makes calls on a lease. -/
abbrev LeaseProgram (α : Type) := Program LeaseCall LeaseCall.Answer α

namespace Candidate

variable (c : Candidate)

/-- Makes a move. -/
def make : LeaseMove → LeaseProgram (Option (Except ClaimError Unit))
  | .refrain e => .done (some (.error e))
  | .create l => .ask (.create l) fun kept => .done (some (written kept))
  | .replace l => .ask (.replace l) fun kept => .done (some (written kept))

/-- Goes on with what reading the lease has found. -/
def afterRead (now : Instant) : Except Fault (Option Lease) → LeaseProgram (Option (Except ClaimError Unit))
  | .error fault => .done (some (.error (.api fault)))
  | .ok l =>
    match c.move? now l with
    | none => .done none
    | some m => make m

/-- The calls of a claim at an instant. -/
def plan (now : Instant) : LeaseProgram (Option (Except ClaimError Unit)) := .ask .read (c.afterRead now)

/-- Sends a call and reads what comes back. -/
def send : (q : LeaseCall) → Api.Exchange q.Answer
  | .read => c.read
  | .create l =>
    Api.call { method := .post, path := c.leases.path, content := some (.json, l.encode) }
      (Api.Response.decode Lease.decode?)
  | .replace l =>
    Api.callNamed c.leaseName
      { method := .put, path := c.leases.objectPath c.leaseName, content := some (.json, l.encode) }
      (Api.Response.decode Lease.decode?)

/-- A move is performed by sending its calls. -/
theorem expand_make (m : LeaseMove) :
    (make m).expand c.send = (c.perform m).bind fun outcome => .done (some outcome) := by
  cases m with
  | refrain e => rfl
  | create l => exact (Program.bind_assoc (c.send (.create l)) (fun kept => .done (written kept)) fun o => .done (some o)).symm
  | replace l => exact (Program.bind_assoc (c.send (.replace l)) (fun kept => .done (written kept)) fun o => .done (some o)).symm

/-- A claim sends the calls of its plan. -/
theorem claim_eq_expand (now : Instant) : c.claim now = (c.plan now).expand c.send := by
  refine congrArg (Program.bind c.read) (funext fun found => ?_)
  rcases found with fault | l
  · rfl
  · simp only [afterRead]
    cases c.move? now l with
    | none => rfl
    | some m => exact (c.expand_make m).symm

end Candidate

end Reaper
