import Reaper.Proofs.Bucket.Filling
import Reaper.Proofs.Pass.Rota
import Reaper.Proofs.Retry.Outcomes

/-!
Every turn gets a pass on.

What is left of a pass is measured by a number (`Pass.toil`): three turns for each call that a deletion can still make,
and for the tokens as many tries in vain as there can be. A turn that fits the stage of its deletion makes it smaller
(`Turn.toil_step_lt`), as long as tokens come in in good time and nobody is woken too early. That includes a try for a token
in vain: from one millisecond to another the bucket gains something by it, and at one millisecond everybody tries once.

  §1 Measures — what is left for a deletion, and for a pass.
  §2 Steps    — what the parts of an event take away.
  §3 Turns    — so every turn takes something away.
-/

namespace Reaper

open Rounding (nearest)

/-! ## §1 Measures -/

/-- What is left for a deletion of a pass of some size: turns for the calls that it can still make, and tries for a
token. Who is to be woken by a moment up to which the bucket has been counted has one try more. -/
def Stage.toil (plan : PassPlan) (b : Bucket) (size : Nat) : Stage → Nat
  | fresh => 3 * (plan.limit - 1) + 4 + (size + 1) * (b.vainTries + 1)
  | awaitingToken wake =>
    3 * (plan.limit - 1) + 3 + (size + 1) * (b.vainTries + 1) + if wake ≤ b.lastRefill then 1 else 0
  | awaitingSlot n | granted n => 3 * (plan.limit - n) + 2
  | calling n => 3 * (plan.limit - n) + 1
  | pausing n _ => 3 * (plan.limit - (n + 1)) + 3
  | settled _ | stranded => 0

namespace Pass

variable (plan : PassPlan) {p : Pass} {i : Nat} {s : Stage}

def toilOf (p : Pass) (s : Stage) : Nat := s.toil plan p.bucket p.stages.size

/-- What is left for all deletions together. -/
def stagesToil (p : Pass) : Nat := (p.stages.toList.map (toilOf plan p)).sum

/-- What is left of a pass: with every try for a token in vain, everybody may be woken once more. -/
def toil (p : Pass) : Nat := p.stagesToil plan + (p.stages.size + 1) * p.bucket.dearth

/-- A sum in which one summand is replaced. -/
theorem sum_map_set {α : Type} (f : α → Nat) {l : List α} {i : Nat} {a : α} (h : l[i]? = some a) (a' : α) :
    ((l.set i a').map f).sum + f a = (l.map f).sum + f a' := by
  induction l generalizing i with
  | nil => cases h
  | cons b l ih =>
    cases i with
    | zero =>
      cases h
      simp only [List.set_cons_zero, List.map_cons, List.sum_cons]
      omega
    | succ i =>
      have := ih (i := i) h
      simp only [List.set_cons_succ, List.map_cons, List.sum_cons]
      omega

/-- Putting a deletion into another stage. -/
theorem toil_put (hs : p.stages[i]? = some s) (s' : Stage) :
    (p.put i s').toil plan + toilOf plan p s = p.toil plan + toilOf plan p s' := by
  have hsize : (p.put i s').stages.size = p.stages.size := Array.size_setIfInBounds
  have hsame : toilOf plan (p.put i s') = toilOf plan p := by
    funext s
    rw [toilOf, hsize]
    rfl
  have hsum := sum_map_set (toilOf plan p) (by rwa [Array.getElem?_toList]) s'
  unfold toil stagesToil
  rw [hsame, hsize, show (p.put i s').stages.toList = p.stages.toList.set i s' from Array.toList_setIfInBounds ..,
    show (p.put i s').bucket = p.bucket from rfl]
  omega

/-- Only stages and the bucket matter. -/
theorem toil_congr {q : Pass} (hstages : q.stages = p.stages) (hbucket : q.bucket = p.bucket) :
    q.toil plan = p.toil plan := by
  unfold toil stagesToil toilOf
  rw [hstages, hbucket]

/-! ## §2 Steps -/

/-- A deletion that has ended leaves nothing to do. -/
theorem toil_settle (hs : p.stages[i]? = some s) (d : Disposition) :
    (p.settle i d).toil plan + toilOf plan p s = p.toil plan := by
  rw [← Nat.add_zero (p.toil plan)]
  exact toil_put plan hs (.settled d)

theorem toil_beginCall (hs : p.stages[i]? = some s) (n : Nat) :
    (p.beginCall i n).toil plan + toilOf plan p s = p.toil plan + (3 * (plan.limit - n) + 1) :=
  toil_put plan hs (.calling n)

theorem toil_seekSlot_le (hs : p.stages[i]? = some s) (n : Nat) :
    (p.seekSlot i n).toil plan + toilOf plan p s ≤ p.toil plan + (3 * (plan.limit - n) + 2) := by
  obtain ⟨-, heq⟩ | ⟨-, heq⟩ := seekSlot_cases p i n <;> rw [heq]
  · have hcalling := toil_beginCall plan (p := { p with free := p.free - 1 }) hs n
    have hsame : { p with free := p.free - 1 }.toil plan = p.toil plan := rfl
    have hstage : toilOf plan { p with free := p.free - 1 } s = toilOf plan p s := rfl
    omega
  · exact (toil_put plan hs (.awaitingSlot n)).le

theorem toil_attempt_le (hs : p.stages[i]? = some s) (n : Nat) :
    (p.attempt plan i n).toil plan + toilOf plan p s ≤ p.toil plan + (3 * (plan.limit - (n + 1)) + 2) := by
  unfold attempt RetryState.start
  cases p.cancelled with
  | true => exact (toil_settle plan hs _).le.trans (Nat.le_add_right ..)
  | false => exact toil_seekSlot_le plan hs (n + 1)

/-- Giving a slot back takes nothing away: who waits for it has as much to do with it as without. -/
theorem toil_releaseSlot {total : Nat} (hagree : SlotsAgree total p) : p.releaseSlot.toil plan = p.toil plan := by
  obtain ⟨-, heq⟩ | ⟨j, rest, m, -, hj, heq⟩ := hagree.releaseSlot_cases <;> rw [heq]
  · rfl
  · exact Nat.add_right_cancel (toil_put plan hj (.granted m))

/-- When the bucket has been counted, everybody may have been given a try more, and nobody if it had been counted up to
this moment before. -/
theorem toilOf_counted {b : Bucket} (hrate : b.rate = p.bucket.rate) (hnow : b.lastRefill = p.now) (s : Stage) :
    toilOf plan { p with bucket := b } s ≤ toilOf plan p s + 1 ∧
      (p.now ≤ p.bucket.lastRefill → toilOf plan { p with bucket := b } s ≤ toilOf plan p s) := by
  unfold toilOf Stage.toil
  dsimp only
  rw [Bucket.vainTries_congr hrate, hnow]
  cases s with
  | awaitingToken wake =>
    dsimp only
    refine ⟨by split <;> omega, fun hpast => ?_⟩
    by_cases hwake : wake ≤ p.now
    · rw [if_pos hwake, if_pos (show wake ≤ p.bucket.lastRefill from Nat.le_trans hwake hpast)]
    · rw [if_neg hwake]
      omega
  | _ => exact ⟨Nat.le_succ _, fun _ => Nat.le_refl _⟩

theorem stagesToil_counted {b : Bucket} (hrate : b.rate = p.bucket.rate) (hnow : b.lastRefill = p.now) :
    stagesToil plan { p with bucket := b } ≤ stagesToil plan p + p.stages.size ∧
      (p.now ≤ p.bucket.lastRefill → stagesToil plan { p with bucket := b } ≤ stagesToil plan p) := by
  constructor
  · calc stagesToil plan { p with bucket := b }
        ≤ (p.stages.toList.map fun s => toilOf plan p s + 1).sum :=
          List.sum_le_sum fun s _ => (toilOf_counted plan hrate hnow s).1
      _ = stagesToil plan p + p.stages.size := by
          rw [List.sum_map_add, List.map_const', List.sum_replicate, Array.length_toList]
          exact congrArg _ (Nat.mul_one _)
  · exact fun hpast => List.sum_le_sum fun s _ => (toilOf_counted plan hrate hnow s).2 hpast

/-- A try in vain leaves no more than there was. -/
theorem toil_counted_of_wait {b : Bucket} (hrate : b.rate = p.bucket.rate) (hnow : b.lastRefill = p.now)
    (hdearth : b.dearth < p.bucket.dearth ∨ p.now ≤ p.bucket.lastRefill ∧ b.dearth = p.bucket.dearth) :
    toil plan { p with bucket := b } ≤ toil plan p := by
  obtain ⟨hmore, hsame⟩ := stagesToil_counted plan hrate hnow
  unfold toil
  dsimp only
  rcases hdearth with hless | ⟨hpast, heq⟩
  · have hsteps : (p.stages.size + 1) * (b.dearth + 1) ≤ (p.stages.size + 1) * p.bucket.dearth :=
      Nat.mul_le_mul_left _ hless
    rw [Nat.mul_succ] at hsteps
    omega
  · rw [heq]
    exact Nat.add_le_add_right (hsame hpast) _

/-- When a token was given, everything may have to be waited for anew. -/
theorem toil_counted_of_granted {b : Bucket} (hrate : b.rate = p.bucket.rate) (hnow : b.lastRefill = p.now)
    (hdearth : b.dearth ≤ p.bucket.vainTries) :
    toil plan { p with bucket := b } < toil plan p + (p.stages.size + 1) * (p.bucket.vainTries + 1) := by
  obtain ⟨hmore, -⟩ := stagesToil_counted plan hrate hnow
  have hsteps : (p.stages.size + 1) * b.dearth ≤ (p.stages.size + 1) * p.bucket.vainTries := Nat.mul_le_mul_left _ hdearth
  unfold toil
  dsimp only
  rw [Nat.mul_succ]
  omega

/-! ## §3 Turns -/

theorem toilOf_pos {s : Stage} (h : s.canResume = true) : 0 < toilOf plan p s := by
  unfold toilOf Stage.toil
  cases s with
  | fresh | awaitingToken _ | granted _ | pausing _ _ => dsimp only; omega
  | _ => cases h

theorem toil_settle_lt (hs : p.stages[i]? = some s) (hresume : s.canResume = true) (d : Disposition) :
    (p.settle i d).toil plan < p.toil plan := by
  have hsettle := toil_settle plan hs d
  have hpos : 0 < toilOf plan p s := toilOf_pos plan hresume
  omega

theorem toil_attempt_lt_of_pausing {n : Nat} {wake : Duration} (hs : p.stages[i]? = some (.pausing n wake)) :
    (p.attempt plan i n).toil plan < p.toil plan := by
  have hattempt := toil_attempt_le plan hs n
  have hitself : toilOf plan p (.pausing n wake) = 3 * (plan.limit - (n + 1)) + 3 := rfl
  omega

/-- What is left for a deletion that asks for a token when it is time, once the bucket has been counted. -/
theorem toilOf_of_asks {b : Bucket} (hrate : b.rate = p.bucket.rate) (hnow : b.lastRefill = p.now)
    (hseeks : s.seeksToken = true) (hdue : ∀ wake, s.wake? = some wake → wake ≤ p.now) :
    toilOf plan { p with bucket := b } s =
      3 * (plan.limit - 1) + 4 + (p.stages.size + 1) * (p.bucket.vainTries + 1) := by
  unfold toilOf Stage.toil
  dsimp only
  rw [Bucket.vainTries_congr hrate, hnow]
  cases s with
  | fresh => rfl
  | awaitingToken wake =>
    dsimp only
    rw [if_pos (hdue wake rfl)]
    omega
  | _ => cases hseeks

/-- What is left for one that is woken later than up to which the bucket has been counted. -/
theorem toilOf_of_waits {b : Bucket} (hrate : b.rate = p.bucket.rate) (hnow : b.lastRefill = p.now) {wake : Duration}
    (hlater : p.now.nanos < wake.nanos) :
    toilOf plan { p with bucket := b } (.awaitingToken wake) =
      3 * (plan.limit - 1) + 3 + (p.stages.size + 1) * (p.bucket.vainTries + 1) := by
  have hnotyet : ¬wake ≤ p.now := Nat.not_le.mpr hlater
  unfold toilOf Stage.toil
  dsimp only
  rw [Bucket.vainTries_congr hrate, hnow, if_neg hnotyet, Nat.add_zero]

variable {plan}

/-- Who asks for a token when it is time has less left afterwards, with the token or without. -/
theorem toil_seekToken_lt (hs : p.stages[i]? = some s) (hseeks : s.seeksToken = true)
    (hdue : ∀ wake, s.wake? = some wake → wake ≤ p.now) (hround : plan.round = nearest) (hbrisk : p.bucket.Brisk)
    (hwhole : Duration.perMilli ∣ p.now.nanos) (hcancelled : p.cancelled = false) :
    (p.seekToken plan i).toil plan < p.toil plan := by
  have hrate := Bucket.rate_request p.bucket nearest p.now
  obtain ⟨-, hnow⟩ := hbrisk.isCounted_request hwhole
  obtain ⟨-, hrepresentable⟩ := hbrisk.request p.now
  have hfull := hbrisk.dearth_request_le hwhole
  have hdearth {d : Duration} := hbrisk.dearth_lt_of_wait hwhole (d := d)
  unfold seekToken
  rw [if_neg (Bool.eq_false_iff.mp hcancelled), hround]
  generalize p.bucket.request nearest p.now = request at *
  obtain ⟨b, taking⟩ := request
  dsimp only at hrate hnow hfull hdearth hrepresentable
  have hasks : toilOf plan { p with bucket := b } s = _ := toilOf_of_asks plan hrate hnow hseeks hdue
  cases taking with
  | granted =>
    have hattempt := toil_attempt_le plan (p := { p with bucket := b }) hs 0
    have hcounted := toil_counted_of_granted plan hrate hnow hfull
    dsimp only at hattempt ⊢
    omega
  | wait d =>
    have hput := toil_put plan (p := { p with bucket := b }) hs (.awaitingToken (p.now.waitEnd d))
    have hcounted := toil_counted_of_wait plan hrate hnow (hdearth rfl)
    have hwaits := toilOf_of_waits plan hrate hnow (Duration.lt_waitEnd p.now d)
    dsimp only at hput ⊢
    omega
  | unrepresentable => exact absurd rfl hrepresentable

/-- Who is resumed when it is time has less left afterwards. -/
theorem toil_resume_lt (hs : p.stages[i]? = some s) (hresume : s.canResume = true)
    (hdue : p.cancelled = true ∨ ∀ wake, s.wake? = some wake → wake ≤ p.now) (hround : plan.round = nearest)
    (hbrisk : p.bucket.Brisk) (hwhole : Duration.perMilli ∣ p.now.nanos) :
    (p.resume plan i).toil plan < p.toil plan := by
  have hsettle (d : Disposition) : (p.settle i d).toil plan < p.toil plan := toil_settle_lt plan hs hresume d
  have htoken (hseeks : s.seeksToken = true) (hlive : ¬p.cancelled = true) :
      (p.seekToken plan i).toil plan < p.toil plan :=
    toil_seekToken_lt hs hseeks (hdue.resolve_left hlive) hround hbrisk hwhole (Bool.eq_false_iff.mpr hlive)
  unfold resume
  rw [hs]
  cases s with
  | fresh =>
    dsimp only
    split
    · exact hsettle _
    · rename_i hlive
      split
      · exact hsettle _
      · exact htoken rfl hlive
  | awaitingToken wake =>
    dsimp only
    split
    · exact hsettle _
    · rename_i hlive
      rw [if_pos (hdue.resolve_left hlive wake rfl)]
      exact htoken rfl hlive
  | granted n =>
    have hbegin := toil_beginCall plan hs n
    have hitself : toilOf plan p (.granted n) = 3 * (plan.limit - n) + 2 := rfl
    dsimp only
    omega
  | pausing n wake =>
    dsimp only
    split
    · exact hsettle _
    · rename_i hlive
      rw [if_pos (hdue.resolve_left hlive wake rfl)]
      exact toil_attempt_lt_of_pausing plan hs
  | _ => cases hresume

variable (plan) in
/-- Who pauses has no more left when it is resumed, be it time or not. -/
theorem toil_resume_pausing_le {n : Nat} {wake : Duration} (hs : p.stages[i]? = some (.pausing n wake)) :
    (p.resume plan i).toil plan ≤ p.toil plan := by
  unfold resume
  rw [hs]
  dsimp only
  split
  · exact (toil_settle_lt plan hs rfl _).le
  · split
    · exact (toil_attempt_lt_of_pausing plan hs).le
    · exact Nat.le_refl _

/-- Whose call is answered has less left afterwards: there is one try less. -/
theorem toil_reply_lt {total n : Nat} (hagree : SlotsAgree total p) (hs : p.stages[i]? = some (.calling n)) (r : Reply) :
    (p.reply plan i r).toil plan < p.toil plan := by
  have hreleased : p.releaseSlot.stages[i]? = some (.calling n) := hagree.getElem?_releaseSlot hs
  have hput (s' : Stage) := toil_put plan hreleased s'
  have hcalling : toilOf plan p.releaseSlot (.calling n) = 3 * (plan.limit - n) + 1 := rfl
  rw [toil_releaseSlot plan hagree, hcalling] at hput
  unfold reply
  rw [hs]
  dsimp only
  obtain ⟨o, hanswered⟩ | hanswered := answered_cases plan.limit n r <;> rw [hanswered] <;> dsimp only
  · have hsettled : (p.releaseSlot.settle i (disposition plan i o)).toil plan + (3 * (plan.limit - n) + 1) = p.toil plan :=
      hput (.settled (disposition plan i o))
    omega
  · have hleft : n < plan.limit := Retry.lt_of_answered hanswered
    split
    · have hstranded : (p.releaseSlot.put i .stranded).toil plan + (3 * (plan.limit - n) + 1) = p.toil plan :=
        hput .stranded
      omega
    · rename_i d _
      have hpausing := hput (.pausing n (p.releaseSlot.now.sleepEnd d))
      have hitself : toilOf plan p.releaseSlot (.pausing n (p.releaseSlot.now.sleepEnd d)) =
        3 * (plan.limit - (n + 1)) + 3 := rfl
      have hresumed := toil_resume_pausing_le plan (i := i)
        (p := p.releaseSlot.put i (.pausing n (p.releaseSlot.now.sleepEnd d))) (by rw [getElem?_put, if_pos rfl, hreleased]; rfl)
      omega

/-- At the start everybody has all their tries left. -/
theorem toil_start_le (plan : PassPlan) {bucket : Bucket} (hbrisk : bucket.Brisk) (now : Duration) :
    (start plan bucket now).toil plan ≤ plan.deletions.size * (3 * plan.limit + 4) +
      (plan.deletions.size + 1) * (plan.deletions.size + 2) * (bucket.vainTries + 1) := by
  have hsize : (start plan bucket now).stages.size = plan.deletions.size := Array.size_map ..
  have hfresh : (start plan bucket now).stages.toList = List.replicate plan.deletions.size .fresh := by
    simp [start, List.map_const']
  have hstages : (start plan bucket now).stagesToil plan = plan.deletions.size *
      (3 * (plan.limit - 1) + 4 + (plan.deletions.size + 1) * (bucket.vainTries + 1)) := by
    rw [stagesToil, hfresh, List.map_replicate, List.sum_replicate, toilOf, hsize]
    rfl
  have hdearth : bucket.dearth ≤ 2 * (bucket.vainTries + 1) := by
    have := hbrisk.lack_le
    unfold Bucket.dearth
    split <;> omega
  calc (start plan bucket now).toil plan
      ≤ plan.deletions.size * (3 * plan.limit + 4 + (plan.deletions.size + 1) * (bucket.vainTries + 1)) +
          (plan.deletions.size + 1) * (2 * (bucket.vainTries + 1)) := by
        rw [toil, hstages, hsize]
        exact Nat.add_le_add (Nat.mul_le_mul_left _ (by omega)) (Nat.mul_le_mul_left _ hdearth)
    _ = plan.deletions.size * (3 * plan.limit + 4) +
          (plan.deletions.size + 1) * (plan.deletions.size + 2) * (bucket.vainTries + 1) := by ring

/-- The bucket of a pass fills in good time for ever. -/
theorem Change.brisk {given : Nat → Nat → Reply → Prop} {q : Pass} (hround : plan.round = nearest)
    (h : p.bucket.Brisk) (hc : Change plan given p q) : q.bucket.Brisk := by
  have hrequested {b : Bucket} {taking : Bucket.Taking} (hrequest : p.bucket.request plan.round p.now = (b, taking)) :
      b.Brisk := by
    have hbrisk := (h.request p.now).1
    rwa [← hround, hrequest] at hbrisk
  cases hc with
  | token i s b _ _ _ _ hrequest => exact seekSlot_bucket { p with bucket := b } i 1 ▸ hrequested hrequest
  | noToken i s s' b taking _ _ _ hrequest _ _ => exact hrequested hrequest
  | again i n wake _ _ => exact seekSlot_bucket p i (n + 1) ▸ h
  | answer i n r s' _ _ _ _ => exact releaseSlot_bucket p ▸ h
  | answerLast i n r o _ _ _ => exact releaseSlot_bucket p ▸ h
  | _ => exact h

theorem brisk_run (hround : plan.round = nearest) (h : p.bucket.Brisk) (events : List PassEvent) :
    (p.run plan events).bucket.Brisk :=
  (run_changes p events).keeps (Q := fun p => p.bucket.Brisk) (fun _ _ h hc => hc.brisk hround h) h

end Pass

/-- A turn is due by a moment when its deletion does not sleep beyond it. -/
def Turn.IsDueBy (moment : Duration) (p : Pass) (t : Turn) : Prop :=
  ∀ s wake, p.stages[t.deletion]? = some s → s.wake? = some wake → wake ≤ moment

/-- Every turn that fits and comes when it is due takes something away from what is left of a pass. -/
theorem Turn.toil_step_lt {plan : PassPlan} {p : Pass} {total : Nat} {t : Turn} (hfits : t.Fits p)
    (hdue : p.cancelled = true ∨ t.IsDueBy p.now p) (hagree : p.SlotsAgree total) (hround : plan.round = nearest)
    (hbrisk : p.bucket.Brisk) (hwhole : Duration.perMilli ∣ p.now.nanos) :
    (p.step plan t.event).toil plan < p.toil plan := by
  cases t with
  | resume i =>
    obtain ⟨s, hs, hresume⟩ := hfits
    exact Pass.toil_resume_lt hs hresume (hdue.imp_right fun h wake => h s wake hs) hround hbrisk hwhole
  | deliver i r =>
    obtain ⟨n, hs⟩ := hfits
    exact Pass.toil_reply_lt hagree hs r

end Reaper
