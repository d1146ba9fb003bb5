import Reaper.Proofs.Evaluation.LateCalls
import Reaper.Proofs.Pass.Termination

/-!
Which evaluations have a result.

An evaluation whose bucket fills in good time has a result, unless one of its deletions comes to a pause that is longer
than any duration (`evaluate_eq_none_iff`). It does not matter how many deletions there are, nor at which rate tokens
come in.
-/

namespace Reaper.Evaluator

variable {σ : Type} (e : Evaluator) (backend : DeleteBackend σ) (p : Policy) (target : WatchTarget) (now : Instant)
  (snapshot : List Resource) (bucket : Bucket) (clock : Millis) (cancelAt : Option Millis) (world : σ)

/-- A deletion of the evaluation comes to a pause after one of its calls that has no duration, and is stranded. -/
def Strands : Prop :=
  Retry.cancelledBy cancelAt clock = false ∧
    ∃ s i n, Schedule.Reaches (e.planFor p target now snapshot) backend
        (.start (e.planFor p target now snapshot) bucket clock cancelAt world) s ∧
      s.pass.stages[i]? = some .stranded ∧ e.retry.delay? n (e.word i n) = none

variable {e backend p target now snapshot bucket clock cancelAt world}

/-- An evaluation in which a deletion is stranded has no result, however its bucket fills. -/
theorem Strands.evaluate_eq_none (h : e.Strands backend p target now snapshot bucket clock cancelAt world) :
    e.evaluate backend p target now snapshot bucket clock cancelAt world = none := by
  obtain ⟨hbegun, s, i, -, hreach, hs, -⟩ := h
  unfold evaluate
  rw [hbegun, if_neg Bool.false_ne_true, Option.map_eq_none_iff]
  exact Schedule.run_eq_none_of_stranded hreach hs

/-- With a bucket that fills in good time, nothing else keeps an evaluation from having a result. -/
theorem evaluate_eq_none_iff (hbrisk : bucket.Brisk) :
    e.evaluate backend p target now snapshot bucket clock cancelAt world = none ↔
      e.Strands backend p target now snapshot bucket clock cancelAt world := by
  refine ⟨fun hnone => ?_, Strands.evaluate_eq_none⟩
  unfold evaluate at hnone
  split at hnone
  · cases hnone
  · rename_i hbegun
    rw [Option.map_eq_none_iff] at hnone
    have hround : (e.planFor p target now snapshot).round = Rounding.nearest := rfl
    exact ⟨Bool.eq_false_iff.mpr hbegun,
      (Schedule.run_eq_none_iff hround (e.batchSize_pos p.spec.behavior) hbrisk).mp hnone⟩

/-- The bucket that an evaluation leaves fills in good time, too. -/
theorem brisk_of_evaluate (hbrisk : bucket.Brisk) {v : Evaluation σ}
    (h : e.evaluate backend p target now snapshot bucket clock cancelAt world = some v) : v.bucket.Brisk := by
  unfold evaluate at h
  split at h
  · cases h
    exact hbrisk
  · obtain ⟨s, hrun, rfl⟩ := Option.map_eq_some_iff.mp h
    obtain ⟨events, hevents⟩ := (Schedule.reaches_of_runFor hrun).events
    show s.pass.bucket.Brisk
    rw [hevents]
    exact Pass.brisk_run rfl hbrisk events

end Reaper.Evaluator
