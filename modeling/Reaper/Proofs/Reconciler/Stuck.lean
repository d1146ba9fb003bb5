import Reaper.Proofs.Evaluation.Ends
import Reaper.Proofs.Reconciler.Statuses
import Reaper.Proofs.Registry.Stock

/-!
Visits that do not end.

However a reconciler is used, its limiters fill in good time (`stocked_run`), so that its passes end unless a deletion
comes to a pause that is longer than any duration (`evaluate_eq_none_iff`). There is nothing else in a pass that keeps a
visit from its end (`Stuck`).

  §1 Passes — which passes have no result.
  §2 Stores — what is asked leaves the limiters as they should be.
  §3 Visits — why a visit does not end.
-/

namespace Reaper

namespace Engine

variable {σ : Type} (out : Surroundings σ) (c : Settings)

/-! ## §1 Passes -/

/-- A deletion of the pass comes to a pause that has no duration. -/
def Strands (e : Engine σ) (p : Policy) (h : Handles) : Prop :=
  let (now, world) := out.now e.world
  (c.evaluator out.word).Strands (.reporting (out.delete h.target) out.notify p) p h.target now
    (out.snapshot h.watch h.target world) ((e.registry.limiters[h.limiter]?).getD default) (out.clock world)
    (e.cancelAt out h.watch) world

/-- Why a visit that is due does not end: the target has no plural, a deletion of its pass is stranded, or the total
does not fit. -/
def Stuck (p : Policy) (t : List (Question × Engine σ)) : Prop :=
  WatchTarget.ofPolicy? p = none ∨ (∃ h e, (.evaluate p h, e) ∈ t ∧ e.Strands out c p h) ∨
    p.totalAfter? (deletedIn out c t) = none

variable {out c} {p : Policy} {ref : PolicyRef} {e e' : Engine σ} {h : Handles}

theorem Strands.evaluate_eq_none (hstrands : e.Strands out c p h) : e.evaluate out c p h = none :=
  Option.map_eq_none_iff.mpr (Evaluator.Strands.evaluate_eq_none hstrands)

/-- A pass with the limiter of its policy has a result, unless a deletion is stranded. -/
theorem evaluate_eq_none_iff (hstocked : e.registry.Stocked) {uid : String}
    (hhandles : e.registry.handles? uid = some h) : e.evaluate out c p h = none ↔ e.Strands out c p h := by
  obtain ⟨b, hlimiter, hbrisk⟩ := hstocked.exists_of_handles? hhandles
  refine ⟨fun hnone => ?_, Strands.evaluate_eq_none⟩
  refine (Evaluator.evaluate_eq_none_iff ?_).mp (Option.map_eq_none_iff.mp hnone)
  rw [hlimiter]
  exact hbrisk

/-- What a pass leaves of a limiter that fills in good time does so, too. -/
theorem stocked_evaluate (hstocked : e.registry.Stocked) {r : PassResult}
    (heval : e.evaluate out c p h = some (r, e')) : e'.registry.Stocked := by
  obtain ⟨v, hv, heq⟩ := Option.map_eq_some_iff.mp heval
  cases heq
  refine hstocked.setLimiter fun hl => ?_
  refine Evaluator.brisk_of_evaluate ?_ hv
  rw [Array.getElem?_eq_getElem hl]
  exact hstocked.brisk (Array.getElem?_eq_getElem hl)

/-! ## §2 Stores -/

/-- Whatever is asked, the limiters stay as they should be. -/
theorem stocked_answer {q : Question} {a : q.Answer} (hstocked : e.registry.Stocked)
    (hanswer : answer out c q e = some (a, e')) : e'.registry.Stocked := by
  cases q with
  | ensure uid target rate =>
    cases hanswer
    exact hstocked.ensure ..
  | setState uid s =>
    cases hanswer
    exact hstocked.setState uid s
  | remove uid =>
    cases hanswer
    exact hstocked.remove uid
  | prune live =>
    cases hanswer
    exact hstocked.prune live
  | evaluate p h => exact stocked_evaluate hstocked hanswer
  | halt => cases hanswer
  | isLeader | now | lastPass | remember | forget | forgetOthers | state | handles | snapshot | notify | writeStatus
  | patch =>
    cases hanswer
    exact hstocked

/-! ## §3 Visits -/

/-- A visit that breaks off is stuck. -/
theorem BreaksOff.stuck (hbreaks : BreaksOff out c p ref ((Reconciling.apply c p).asked (answer out c) e))
    (hstocked : e.registry.Stocked) : Stuck out c p ((Reconciling.apply c p).asked (answer out c) e) := by
  obtain hplural | ⟨h, e₁, hasked, hhandles, hnone⟩ | htotal := hbreaks
  · exact .inl hplural
  · have hstocked₁ : e₁.registry.Stocked :=
      Program.holds_of_mem_asked (I := fun e => e.registry.Stocked) stocked_answer hstocked hasked
    exact .inr (.inl ⟨h, e₁, hasked, (evaluate_eq_none_iff hstocked₁ hhandles).mp hnone⟩)
  · exact .inr (.inr htotal)

/-- A visit that has ended is not stuck. -/
theorem not_stuck_of_apply {r : Except ServeError Visit × Engine σ} (happly : e.apply out c p = some r)
    (htarget : WatchTarget.ofPolicy? p ≠ none)
    (htotal : p.totalAfter? (deletedIn out c ((Reconciling.apply c p).asked (answer out c) e)) ≠ none) :
    ¬ Stuck out c p ((Reconciling.apply c p).asked (answer out c) e) := by
  rintro (hplural | ⟨h, e₁, hasked, hstrands⟩ | hfull)
  · exact htarget hplural
  · have hanswered : (e₁.evaluate out c p h).isSome = true := Program.isSome_of_mem_asked happly hasked
    rw [hstrands.evaluate_eq_none] at hanswered
    cases hanswered
  · exact htotal hfull

/-- What is done with a reconciler leaves its limiters as they should be. -/
theorem stocked_act {a : Act σ} {visit : Option Visit} (hstocked : e.registry.Stocked)
    (hact : e.act out c a = some (visit, e')) : e'.registry.Stocked := by
  cases a with
  | apply p =>
    obtain ⟨r, happly, heq⟩ := Option.map_eq_some_iff.mp hact
    cases heq
    exact Program.holds_of_run (I := fun e => e.registry.Stocked) stocked_answer hstocked happly
  | teardown uid =>
    cases hact
    exact hstocked.remove uid
  | prune live =>
    cases hact
    exact hstocked.prune live
  | meanwhile world =>
    cases hact
    exact hstocked
  | cancelRoot =>
    cases hact
    exact hstocked.of_same id rfl

end Engine

/-- However a reconciler is used, its limiters fill in good time. -/
theorem Chronicle.stocked_run {σ : Type} {out : Surroundings σ} {c : Settings} {world : σ} {acts : List (Act σ)}
    {s : Chronicle σ} (hrun : run out c ⟨{ world }, []⟩ acts = some s) : s.engine.registry.Stocked :=
  run_induction (P := fun s => s.engine.registry.Stocked)
    (fun _ _ hstocked hbefore hgenuine => Engine.stocked_act (hbefore ▸ hstocked) hgenuine) hrun Registry.stocked_empty

end Reaper
