import Reaper.Policy
import Reaper.Path
import Reaper.View

/-!
Time to live: when a resource expires under a policy's rule.

The rule has a mode (`TtlMode.of?`), the first of fixed, by field and relative that is configured. The expiration is a
base instant plus a number of seconds. When the mode yields no base or no seconds, or the sum is out of range, the
resource does not expire: nothing falls through to another mode.
-/

namespace Reaper

/-- The modes of a rule. -/
inductive TtlMode where
  | fixed
  | fieldPath
  | mapped
  | relative
  deriving DecidableEq, Repr

/-- The mode that a rule is in, if it has one. -/
def TtlMode.of? (t : TtlSpec) : Option TtlMode :=
  if t.secondsAfterCreation.isSome then some .fixed
  else if t.fieldPath.isSome then (if t.mappings.isSome then some .mapped else some .fieldPath)
  else if t.relativeTo.isSome then some .relative
  else none

/-- What a rule says about a resource at an instant. -/
inductive Expiry where
  | expired (instant : Instant)
  | pending (instant : Instant)
  | noTtl
  deriving DecidableEq, Repr

/-- The time has come. -/
def Expiry.isExpired : Expiry → Bool
  | expired _ => true
  | _ => false

namespace TtlSpec

/-- The seconds that a field's value is mapped to. A present value without a mapping takes the default; an absent one,
or one without a text, has none. -/
def mappedSeconds? (t : TtlSpec) (value : Option Json) : Option Int := do
  let key ← (← value).asText?
  (t.mappings.bind (·.get? key)).or t.default

/-- The instant from which the time to live counts. -/
def base? (t : TtlSpec) (r : Resource) (doc : Json) : TtlMode → Option Instant
  | .relative => t.relativeTo.bind fun path => (Path.lookup? doc path).bind Json.asInstant?
  | _ => r.metadata.creationTimestamp

/-- The seconds that are added to the base. -/
def seconds? (t : TtlSpec) (doc : Json) : TtlMode → Option Int
  | .fixed => t.secondsAfterCreation
  | .fieldPath => t.fieldPath.bind fun path => (Path.lookup? doc path).bind Json.asInt?
  | .mapped => t.fieldPath.bind fun path => t.mappedSeconds? (Path.lookup? doc path)
  | .relative => some (t.secondsAfter.getD 0)

/-- The instant at which a resource expires. -/
def expiration? (t : TtlSpec) (r : Resource) (doc : Json) : Option Instant := do
  let mode ← TtlMode.of? t
  let base ← t.base? r doc mode
  let seconds ← t.seconds? doc mode
  base.addSeconds? seconds

/-- What the rule says about a resource now: it has expired from the instant of expiration on. -/
def check (t : TtlSpec) (r : Resource) (doc : Json) (now : Instant) : Expiry :=
  match t.expiration? r doc with
  | some instant => if instant ≤ now then .expired instant else .pending instant
  | none => .noTtl

end TtlSpec

end Reaper
