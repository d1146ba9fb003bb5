import Reaper.Proofs.Lease.Exchanges
import Reaper.Proofs.Settings

/-!
The first tick of an election.

Settings that pass the check renew the lease sooner than it ends. An election asks for more: ticks have time between
them, the duration of the lease fits into the lease, and the lease's name and namespace can stand in a path. Where the
server has no lease and refuses nothing, a candidate leads after its first tick exactly if all of this is so
(`leads_after_first_tick_iff`), and without the first two it never leads, however often it ticks and whatever the server
does.

  §1 Settings — what the check gives, and what an election needs beyond it.
  §2 Claims   — a claim where there is no lease, and a claim to a lease that is too long.
  §3 Ticks    — the first tick, and all others.
-/

namespace Reaper

/-! ## §1 Settings -/

/-- A lease is renewed sooner than it ends. -/
theorem Settings.renews_in_time {s : Settings} (h : s.check.isOk = true) (henabled : s.election.enabled = true) :
    s.election.renewIntervalSeconds < s.election.leaseDurationSeconds :=
  (check_isOk_iff.mp h).renewal henabled

/-- Nothing else is asked of an election: with defaults in all other places the check is passed. -/
theorem Settings.check_election {e : ElectionSettings} (h : e.renewIntervalSeconds < e.leaseDurationSeconds) :
    (Settings.check { election := e }).isOk = true := by
  have hinitial : IsAccepted {} := check_isOk_iff.mp (by decide +kernel)
  exact check_isOk_iff.mpr { hinitial with renewal := fun _ => h }

/-- What an election needs of its settings. -/
structure ElectionSettings.CanRun (s : ElectionSettings) : Prop where
  /-- ticks have time between them -/
  paced : s.renewIntervalSeconds ≠ 0
  /-- the duration fits into a lease -/
  fits : (s.leaseDurationSeconds : Int) ≤ Json.int32Limits.2

namespace Candidate

variable (c : Candidate)

def readRequest : Api.Request := { method := .get, path := c.leases.objectPath c.leaseName, bare := true }

def createRequest (l : Lease) : Api.Request :=
  { method := .post, path := c.leases.path, content := some (.json, l.encode) }

/-- The lease has a name, and it can be asked for and created. -/
structure CanAsk : Prop where
  named : c.leaseName.isEmpty = false
  reads : c.readRequest.obstacle? = none
  creates : ∀ l, (c.createRequest l).obstacle? = none

theorem hold_isOk_iff {s : ElectionSettings} {identity : String} {acquired renewed : Instant} {transitions : Int} :
    ((s.candidate identity).hold acquired renewed transitions).isOk = true ↔
      (s.leaseDurationSeconds : Int) ≤ Json.int32Limits.2 := by
  have hsecs : (s.candidate identity).leaseDuration.secs = s.leaseDurationSeconds :=
    Nat.mul_div_cancel _ (by decide)
  unfold hold
  rw [hsecs]
  split <;> simp_all [Except.isOk, Except.toBool]

end Candidate

/-! ## §2 Claims -/

namespace Api

variable {σ α : Type} {answer : Request → σ → Option Response × σ} {q : Request} (read : Response → Except Fault α)

/-- What cannot be sent fails at once. -/
theorem serve_call_of_obstacle {text : String} (h : q.obstacle? = some text) (world : σ) :
    (call q read).serve answer world = (some (.error (.unsendable text)), world) := by
  unfold call
  rw [h]
  rfl

/-- What is sent and answered is read. -/
theorem serve_call_of_answer (h : q.obstacle? = none) {world world' : σ} {r : Response}
    (hanswer : answer q world = (some r, world')) :
    (call q read).serve answer world = (some (read r), world') := by
  unfold call
  rw [h]
  refine (Program.serve_bind answer _ _ world).trans ?_
  simp only [Program.query, Program.serve, hanswer]
  rfl

end Api

namespace Candidate

variable {σ : Type} (c : Candidate) (answer : Api.Request → σ → Option Api.Response × σ)

/-- The reply says that there is no such lease. -/
def isNotFound (r : Api.Response) : Bool :=
  match r.decode Lease.decode? with
  | .error (.api _ _ reason _) => reason = "NotFound"
  | _ => false

/-- The server has no lease, and takes whatever lease is created. -/
def FindsNoLease (world : σ) : Prop :=
  ∃ r world', answer c.readRequest world = (some r, world') ∧ isNotFound r = true ∧
    ∀ l, ∃ r' world'', answer (c.createRequest l) world' = (some r', world'') ∧
      (r'.decode Lease.decode?).isOk = true

variable {c answer}

theorem decode_of_isNotFound {r : Api.Response} (h : isNotFound r = true) :
    ∃ status message code, r.decode Lease.decode? = .error (.api status message "NotFound" code) := by
  unfold isNotFound at h
  split at h
  · rename_i status message reason code heq
    obtain rfl : reason = "NotFound" := by simpa using h
    exact ⟨status, message, code, heq⟩
  · simp at h

/-- Reading finds no lease where there is none, if it can be asked for. -/
theorem serve_read_of_notFound (hname : c.leaseName.isEmpty = false) (hreads : c.readRequest.obstacle? = none)
    {world world' : σ} {r : Api.Response} (hanswer : answer c.readRequest world = (some r, world'))
    (hr : isNotFound r = true) : c.read.serve answer world = (some (.ok none), world') := by
  obtain ⟨status, message, code, hdecode⟩ := decode_of_isNotFound hr
  have hcall : (Api.callNamed c.leaseName c.readRequest (Api.Response.decode Lease.decode?)).serve answer world =
      (some (r.decode Lease.decode?), world') := by
    rw [Api.callNamed, if_neg (by simp [hname])]
    exact Api.serve_call_of_answer _ hreads hanswer
  refine (Program.serve_bind answer _ _ world).trans ?_
  rw [readRequest] at hcall
  rw [hcall, hdecode]
  rfl

/-- Reading fails where the lease cannot be asked for. -/
theorem serve_read_of_obstacle (h : c.leaseName.isEmpty = true ∨ c.readRequest.obstacle? ≠ none) (world : σ) :
    ∃ fault, c.read.serve answer world = (some (.error fault), world) := by
  have hcall : ∃ text,
      (Api.callNamed c.leaseName c.readRequest (Api.Response.decode Lease.decode?)).serve answer world =
        (some (.error (.unsendable text)), world) := by
    unfold Api.callNamed
    split
    · exact ⟨_, rfl⟩
    · rename_i hname
      obtain ⟨text, htext⟩ := Option.ne_none_iff_exists'.mp (h.resolve_left hname)
      exact ⟨text, Api.serve_call_of_obstacle _ htext world⟩
  obtain ⟨text, hcall⟩ := hcall
  refine ⟨.unsendable text, (Program.serve_bind answer _ _ world).trans ?_⟩
  rw [readRequest] at hcall
  rw [hcall]
  rfl

/-- Whether a lease can be created does not depend on what it says. -/
theorem createRequest_obstacle (l l' : Lease) : (c.createRequest l).obstacle? = (c.createRequest l').obstacle? := rfl

/-- Where there is no lease, a candidate tries to create the one that it wants to hold. -/
theorem serve_claim_of_absent {world world' : σ} (hread : c.read.serve answer world = (some (.ok none), world'))
    {time : Instant} {m : LeaseMove} (hm : c.move? time none = some m) :
    (c.claim time).serve answer world =
      ((c.perform m).bind fun outcome => .done (some outcome)).serve answer world' := by
  refine (Program.serve_bind answer _ _ world).trans ?_
  rw [hread]
  simp only [hm]
  rfl

/-- A lease is created by one call. -/
theorem serve_create {l : Lease} {world world' : σ} {kept : Except Fault Lease}
    (hcall : (Api.call (c.createRequest l) (Api.Response.decode Lease.decode?)).serve answer world =
      (some kept, world')) :
    ((c.perform (.create l)).bind fun outcome => .done (some outcome)).serve answer world =
      (some (some (written kept)), world') := by
  rw [Program.serve_bind, show c.perform (.create l) = (Api.call (c.createRequest l)
    (Api.Response.decode Lease.decode?)).bind fun kept => .done (written kept) from rfl, Program.serve_bind, hcall]
  rfl

/-- Where there is no lease, a claim succeeds if its two requests can be sent and the duration fits. -/
theorem claim_of_findsNoLease {world : σ} (h : c.FindsNoLease answer world) (time : Instant) :
    ∃ outcome world', (c.claim time).serve answer world = (some (some outcome), world') ∧
      (outcome = .ok () ↔ c.CanAsk ∧ (c.hold time time 0).isOk = true) := by
  obtain ⟨r, world', hanswer, hr, hcreate⟩ := h
  by_cases hasks : c.leaseName.isEmpty = true ∨ c.readRequest.obstacle? ≠ none
  · obtain ⟨fault, hread⟩ : ∃ fault, c.read.serve answer world = (some (.error fault), world) :=
      serve_read_of_obstacle hasks world
    refine ⟨.error (.api fault), world, (Program.serve_bind answer _ _ world).trans (by rw [hread]; rfl), ?_⟩
    simp only [reduceCtorEq, false_iff]
    rintro ⟨⟨hnamed, hreads, -⟩, -⟩
    simp_all
  · obtain ⟨hname, hreads⟩ : c.leaseName.isEmpty = false ∧ c.readRequest.obstacle? = none := by simpa using hasks
    have hread := serve_read_of_notFound hname hreads hanswer hr
    cases hhold : c.hold time time 0 with
    | error e =>
      have hm : c.move? time none = some (.refrain e) := by simp [move?, moveTo, hhold]
      refine ⟨.error e, world', (serve_claim_of_absent hread hm).trans rfl, ?_⟩
      simp [Except.isOk, Except.toBool]
    | ok spec =>
      have hm : c.move? time none =
          some (.create ⟨{ name := some c.leaseName, «namespace» := some c.leaseNamespace }, spec⟩) := by
        simp [move?, moveTo, hhold]
      generalize (⟨{ name := some c.leaseName, «namespace» := some c.leaseNamespace }, spec⟩ : Lease) = l at hm
      cases hobstacle : (c.createRequest l).obstacle? with
      | some text =>
        refine ⟨_, _, (serve_claim_of_absent hread hm).trans
          (serve_create (Api.serve_call_of_obstacle _ hobstacle _)), ?_⟩
        simp only [written, reduceCtorEq, false_iff]
        rintro ⟨⟨-, -, hcreates⟩, -⟩
        rw [hcreates l] at hobstacle
        cases hobstacle
      | none =>
        obtain ⟨r', world'', hanswer', hr'⟩ := hcreate l
        refine ⟨_, _, (serve_claim_of_absent hread hm).trans
          (serve_create (Api.serve_call_of_answer _ hobstacle hanswer')), ?_⟩
        rw [written_eq_ok_iff]
        refine iff_of_true hr' ⟨⟨hname, hreads, fun l' => ?_⟩, rfl⟩
        rw [createRequest_obstacle l' l]
        exact hobstacle

/-- A candidate whose lease is too long makes no move. -/
theorem move?_of_hold_error (h : ∀ acquired renewed transitions, (c.hold acquired renewed transitions).isOk = false)
    {now : Instant} {found : Option Lease} {m : LeaseMove} (hm : c.move? now found = some m) : ∃ e, m = .refrain e := by
  have hmove (write : LeaseSpec → LeaseMove) (acquired renewed : Instant) (transitions : Int) :
      ∃ e, moveTo write (c.hold acquired renewed transitions) = .refrain e := by
    cases hhold : c.hold acquired renewed transitions with
    | error e => exact ⟨e, rfl⟩
    | ok s =>
      have := h acquired renewed transitions
      simp [hhold, Except.isOk, Except.toBool] at this
  unfold move? at hm
  split at hm
  · cases hm
    exact hmove ..
  · dsimp only at hm
    split at hm
    · cases hm
      exact hmove ..
    · split at hm
      · cases hm
      · cases hm
        exact ⟨_, rfl⟩
      · split at hm
        · cases hm
        · cases hm
          exact hmove ..

theorem claim_ne_ok (h : ∀ acquired renewed transitions, (c.hold acquired renewed transitions).isOk = false)
    {time : Instant} {world world' : σ} {outcome : Except ClaimError Unit}
    (hserve : (c.claim time).serve answer world = (some (some outcome), world')) : outcome ≠ .ok () := by
  rw [show c.claim time = c.read.bind _ from rfl, Program.serve_bind] at hserve
  rcases hread : c.read.serve answer world with ⟨_ | (fault | found), w⟩
  · rw [hread] at hserve
    cases hserve
  · rw [hread] at hserve
    cases hserve
    simp
  · rw [hread] at hserve
    simp only at hserve
    cases hm : c.move? time found with
    | none =>
      rw [hm] at hserve
      cases hserve
    | some m =>
      obtain ⟨e, rfl⟩ := move?_of_hold_error h hm
      rw [hm] at hserve
      cases hserve
      simp

end Candidate

/-! ## §3 Ticks -/

namespace Election

variable {σ : Type} {c : Candidate} {answer : Api.Request → σ → Option Api.Response × σ}

/-- A first claim makes a leader exactly if it succeeds. -/
theorem leads_count {e : Election} (h : e.leads = false) (now : Duration) (outcome : Except ClaimError Unit) :
    (e.count c now outcome).leads = true ↔ outcome = .ok () := by
  rcases outcome with e' | ⟨⟩
  · cases e' <;> simp [count, holdsAfter, mayStillHold, h]
  · simp [count, holdsAfter]

variable (c answer) in
/-- Several ticks, each given by the time of day of its claim and the moment at which it ends. -/
def runTicks : List (Instant × Duration) → Election → σ → Election × σ
  | [], e, world => (e, world)
  | (time, now) :: rest, e, world =>
    let (e, world) := e.tick c answer time now world
    runTicks rest e world

/-- A claim that cannot succeed makes no leader. -/
theorem leads_tick_of_claims_fail (hfail : ∀ time world outcome world',
    (c.claim time).serve answer world = (some (some outcome), world') → outcome ≠ .ok ()) {e : Election}
    (h : e.leads = false) (time : Instant) (now : Duration) (world : σ) :
    (e.tick c answer time now world).1.leads = false := by
  unfold tick
  split
  · split
    · rename_i outcome world' hclaim
      have hcount := (not_congr (leads_count (c := c) h now outcome)).mpr (hfail time world outcome world' hclaim)
      simpa using hcount
    · exact h
  · exact h

theorem leads_runTicks_of_claims_fail (hfail : ∀ time world outcome world',
    (c.claim time).serve answer world = (some (some outcome), world') → outcome ≠ .ok ())
    (ticks : List (Instant × Duration)) {e : Election} (h : e.leads = false) (world : σ) :
    (runTicks c answer ticks e world).1.leads = false := by
  induction ticks generalizing e world with
  | nil => exact h
  | cons tick rest ih => exact ih (leads_tick_of_claims_fail hfail h tick.1 tick.2 world) _

/-- An election that has ended stays as it is. -/
theorem runTicks_of_not_running (ticks : List (Instant × Duration)) {e : Election} (h : e.running = false) (world : σ) :
    runTicks c answer ticks e world = (e, world) := by
  induction ticks with
  | nil => rfl
  | cons tick rest ih => simpa [runTicks, Election.tick, h] using ih

variable (c answer) in
/-- An election after its first tick. -/
def afterFirstTick (time : Instant) (now : Duration) (world : σ) : Election :=
  ((start c).tick c answer time now world).1

/-- The first tick of an election makes a leader exactly if it runs and its claim succeeds. -/
theorem leads_afterFirstTick {time : Instant} {world world' : σ} {outcome : Except ClaimError Unit}
    (hclaim : (c.claim time).serve answer world = (some (some outcome), world')) (now : Duration) :
    (afterFirstTick c answer time now world).leads = true ↔ (start c).running = true ∧ outcome = .ok () := by
  unfold afterFirstTick tick
  cases hrunning : (start c).running with
  | false => simp [start]
  | true =>
    rw [if_pos rfl, hclaim]
    simpa using leads_count (c := c) rfl now outcome

theorem leads_afterFirstTick_of_claims_fail (hfail : ∀ time world outcome world',
    (c.claim time).serve answer world = (some (some outcome), world') → outcome ≠ .ok ()) (time : Instant)
    (now : Duration) (world : σ) : (afterFirstTick c answer time now world).leads = false :=
  leads_tick_of_claims_fail hfail rfl time now world

theorem running_start_iff {s : ElectionSettings} {identity : String} :
    (start (s.candidate identity)).running = true ↔ s.renewIntervalSeconds ≠ 0 := by
  have hnanos : (s.candidate identity).renewInterval.nanos = s.renewIntervalSeconds * Duration.perSecond := rfl
  simp only [start, hnanos, Duration.perSecond, ne_eq, decide_eq_true_eq]
  omega

/-- Under settings that pass the check, the first tick makes a leader where there is no lease and nothing is refused,
exactly if the election can run and the lease can be asked for. An election that cannot run never makes one. -/
theorem leads_after_first_tick_iff {s : Settings} (hcheck : s.check.isOk = true) (henabled : s.election.enabled = true)
    (identity : String) :
    s.election.renewIntervalSeconds < s.election.leaseDurationSeconds ∧
      ((start (s.election.candidate identity)).running = true ↔ s.election.renewIntervalSeconds ≠ 0) ∧
      (∀ acquired renewed transitions,
        ((s.election.candidate identity).hold acquired renewed transitions).isOk = true ↔
          (s.election.leaseDurationSeconds : Int) ≤ Json.int32Limits.2) ∧
      (∀ {σ : Type} (answer : Api.Request → σ → Option Api.Response × σ) (world : σ) (time : Instant) (now : Duration),
        (s.election.candidate identity).FindsNoLease answer world →
          ((afterFirstTick (s.election.candidate identity) answer time now world).leads = true ↔
            s.election.CanRun ∧ (s.election.candidate identity).CanAsk)) ∧
      (¬ s.election.CanRun → ∀ {σ : Type} (answer : Api.Request → σ → Option Api.Response × σ) (world : σ)
        (ticks : List (Instant × Duration)),
          (runTicks (s.election.candidate identity) answer ticks (start (s.election.candidate identity))
            world).1.leads = false) := by
  refine ⟨Settings.renews_in_time hcheck henabled, running_start_iff, fun _ _ _ => Candidate.hold_isOk_iff, ?_, ?_⟩
  · intro σ answer world time now hfinds
    obtain ⟨outcome, world', hclaim, houtcome⟩ := Candidate.claim_of_findsNoLease hfinds time
    rw [leads_afterFirstTick hclaim, running_start_iff, houtcome, Candidate.hold_isOk_iff]
    constructor
    · rintro ⟨hpaced, hasks, hfits⟩
      exact ⟨⟨hpaced, hfits⟩, hasks⟩
    · rintro ⟨⟨hpaced, hfits⟩, hasks⟩
      exact ⟨hpaced, hasks, hfits⟩
  · intro hcannot σ answer world ticks
    by_cases hpaced : s.election.renewIntervalSeconds = 0
    · have hstill : (start (s.election.candidate identity)).running = false := by
        simpa [hpaced] using not_congr (running_start_iff (s := s.election))
      rw [runTicks_of_not_running ticks hstill]
      rfl
    · have hlong : ¬ (s.election.leaseDurationSeconds : Int) ≤ Json.int32Limits.2 :=
        fun hfits => hcannot ⟨hpaced, hfits⟩
      have hfail : ∀ acquired renewed transitions,
          ((s.election.candidate identity).hold acquired renewed transitions).isOk = false :=
        fun _ _ _ => Bool.eq_false_iff.mpr ((not_congr Candidate.hold_isOk_iff).mpr hlong)
      exact leads_runTicks_of_claims_fail (fun _ _ _ _ hclaim => Candidate.claim_ne_ok hfail hclaim) ticks rfl world

/-- A status that says that there is no such object. -/
def notFoundText : String :=
  "\x7b\x22status\x22:\x22Failure\x22,\x22reason\x22:\x22NotFound\x22,\x22code\x22:404\x7d"

/-- A server that has no lease and keeps what is created. -/
def noLeaseServer (q : Api.Request) (world : Unit) : Option Api.Response × Unit :=
  match q.method with
  | .get => (some (.answered 404 notFoundText), world)
  | _ => (some (.answered 201 "\x7b\x7d"), world)

/-- Under the default settings a candidate without competitors leads at once. -/
theorem leads_after_first_tick_initial :
    (Settings.check {}).isOk = true ∧ ({} : Settings).election.enabled = true ∧
      (({} : Settings).election.candidate "me").FindsNoLease noLeaseServer () ∧
      (afterFirstTick (({} : Settings).election.candidate "me") noLeaseServer ⟨0, 0⟩ ⟨0⟩ ()).leads = true := by
  have hcheck : (Settings.check {}).isOk = true := by decide +kernel
  have hfinds : (({} : Settings).election.candidate "me").FindsNoLease noLeaseServer () :=
    ⟨_, (), rfl, by decide +kernel, fun l => ⟨_, (), rfl, by decide +kernel⟩⟩
  have hasks : (({} : Settings).election.candidate "me").CanAsk :=
    { named := by decide +kernel
      reads := Option.isNone_iff_eq_none.mp (by decide +kernel)
      creates := fun l =>
        (Candidate.createRequest_obstacle l default).trans (Option.isNone_iff_eq_none.mp (by decide +kernel)) }
  refine ⟨hcheck, rfl, hfinds, ?_⟩
  obtain ⟨-, -, -, hfirst, -⟩ := leads_after_first_tick_iff hcheck rfl "me"
  exact (hfirst noLeaseServer () ⟨0, 0⟩ ⟨0⟩ hfinds).mpr ⟨⟨by simp, by simp [Json.int32Limits]⟩, hasks⟩

/-- Settings without time between two ticks. -/
def unpaced : Settings := { election := { renewIntervalSeconds := 0 } }

/-- Settings with a lease of `2 ^ 31` seconds. -/
def overlong : Settings := { election := { leaseDurationSeconds := 2147483648 } }

/-- The check lets through settings under which no election can run: one that allows no time between two ticks never
makes its first, and a lease of `2 ^ 31` seconds cannot be written. -/
theorem exists_checked_cannot_run :
    (unpaced.check.isOk = true ∧ (start (unpaced.election.candidate "me")).running = false) ∧
      overlong.check.isOk = true ∧ ((overlong.election.candidate "me").hold ⟨0, 0⟩ ⟨0, 0⟩ 0).isOk = false ∧
        (afterFirstTick (overlong.election.candidate "me") noLeaseServer ⟨0, 0⟩ ⟨0⟩ ()).leads = false := by
  have hfail (acquired renewed : Instant) (transitions : Int) :
      ((overlong.election.candidate "me").hold acquired renewed transitions).isOk = false :=
    Bool.eq_false_iff.mpr ((not_congr Candidate.hold_isOk_iff).mpr (by simp [overlong, Json.int32Limits]))
  refine ⟨⟨Settings.check_election (by simp), by decide +kernel⟩, Settings.check_election (by simp), hfail .., ?_⟩
  exact leads_afterFirstTick_of_claims_fail (fun _ _ _ _ hclaim => Candidate.claim_ne_ok hfail hclaim) ..

end Election

end Reaper
