import Reaper.Proofs.Reconciler.Questions

/-!
How a visit of a policy comes to a pass.

Whoever answers a visit, and whatever happens between its questions: it asks for a pass only of the policy that it
visits, and only after it was told that this replica leads, had a target for a policy that is not paused, had the watch
on that target ensured, and was given the handles of the policy (`admitted_of_mem_asked`).
-/

namespace Reaper

namespace Reconciling

open Program (AsksOnly exists_run_of_mem_asked_bind)

variable {σ : Type} (c : Settings) (p : Policy) (answer : (q : Question) → σ → Option (q.Answer × σ))

/-- A visit that began in state `s` has been admitted to a pass on some handles in state `s'`. -/
structure Admitted (s : σ) (ref : PolicyRef) (target : WatchTarget) (h : Handles) (s' : σ) : Prop where
  isPolicy : PolicyRef.ofPolicy p = .ok ref
  leads : ∃ s₁, answer .isLeader s = some (true, s₁)
  isActive : p.spec.paused = false
  resolves : WatchTarget.ofPolicy? p = some (.ok target)
  /-- the handles were read right after the watch had been ensured -/
  ensured : ∃ s₁ s₂ outcome, answer (.ensure ref.uid target (c.rateFor p)) s₁ = some (.ok outcome, s₂) ∧
    answer (.handles ref.uid) s₂ = some (some h, s')

variable {c p ref answer} {α β : Type} {s s' : σ} {q : Policy} {h : Handles}

/-- A part of a program that asks for no pass is passed over. -/
theorem exists_run_of_pass {a : Reconciling α} {f : α → Reconciling β} (ha : AsksOnly (Question.IsStep ref) a)
    (hx : (.evaluate q h, s') ∈ (a >>= f).asked answer s) :
    ∃ r s₁, a.run answer s = some (r, s₁) ∧ (.evaluate q h, s') ∈ (f r).asked answer s₁ :=
  exists_run_of_mem_asked_bind ha (fun h => h) hx

/-- A pass is asked for at once or later. -/
theorem pass_of_ask {q₀ : Question} {f : q₀.Answer → Reconciling β}
    (hx : (.evaluate q h, s') ∈ (ask q₀ >>= f).asked answer s) :
    (.evaluate q h = q₀ ∧ s' = s) ∨
      ∃ r s₁, answer q₀ s = some (r, s₁) ∧ (.evaluate q h, s') ∈ (f r).asked answer s₁ := by
  rw [show (ask q₀ >>= f) = Program.ask q₀ f from rfl, Program.asked, List.mem_cons] at hx
  rcases hx with hx | hx
  · exact .inl (Prod.mk.inj hx)
  · split at hx
    · cases hx
    · rename_i r s₁ hr
      exact .inr ⟨r, s₁, hr, hx⟩

/-- A question that is not for a pass has been answered before the pass is asked for. -/
theorem exists_answer_of_pass {q₀ : Question} {f : q₀.Answer → Reconciling β}
    (hx : (.evaluate q h, s') ∈ (ask q₀ >>= f).asked answer s) (hq : q₀.IsNoPass) :
    ∃ r s₁, answer q₀ s = some (r, s₁) ∧ (.evaluate q h, s') ∈ (f r).asked answer s₁ := by
  rcases pass_of_ask hx with ⟨rfl, -⟩ | hlater
  · exact hq.elim
  · exact hlater

/-- A value that is required is there when the pass is asked for. -/
theorem exists_some_of_pass {a : Option α} {f : α → Reconciling β}
    (hx : (.evaluate q h, s') ∈ (require a >>= f).asked answer s) :
    ∃ r, a = some r ∧ (.evaluate q h, s') ∈ (f r).asked answer s := by
  cases a with
  | some r => exact ⟨r, rfl, hx⟩
  | none =>
    obtain ⟨r, -⟩ := exists_answer_of_pass hx trivial
    exact nomatch r

theorem not_pass {a : Reconciling α} (ha : AsksOnly (Question.IsStep ref) a) :
    (.evaluate q h, s') ∉ a.asked answer s :=
  fun hx => ha.of_mem_asked hx

theorem pass_of_visitActive {previous : PolicyState} {target : WatchTarget}
    (hx : (.evaluate q h, s') ∈ (visitActive c p ref previous target).asked answer s) :
    q = p ∧ ∃ s₁ outcome, answer (.ensure ref.uid target (c.rateFor p)) s = some (.ok outcome, s₁) ∧
      answer (.handles ref.uid) s₁ = some (some h, s') := by
  obtain ⟨result, s₁, hensure, hx⟩ := exists_answer_of_pass hx trivial
  cases result with
  | error e => exact absurd hx (not_pass (asksOnly_fail c p ref previous _))
  | ok outcome =>
    obtain ⟨handles, s₂, hhandles, hx⟩ := exists_answer_of_pass hx trivial
    cases handles with
    | none => exact absurd hx (not_pass (asksOnly_fail c p ref previous _))
    | some h' =>
      obtain ⟨hhere, rfl⟩ | hlater := pass_of_ask hx
      · cases hhere
        exact ⟨rfl, s₁, outcome, hensure, hhandles⟩
      · obtain ⟨result, s₃, -, hx⟩ := hlater
        exact absurd hx (not_pass (asksOnly_afterPass c p ref previous result))

theorem pass_of_visitTarget {previous : PolicyState} {result : Except TargetError WatchTarget}
    (hx : (.evaluate q h, s') ∈ (visitTarget c p ref previous result).asked answer s) :
    q = p ∧ p.spec.paused = false ∧ ∃ target, result = .ok target ∧
      ∃ s₁ outcome, answer (.ensure ref.uid target (c.rateFor p)) s = some (.ok outcome, s₁) ∧
        answer (.handles ref.uid) s₁ = some (some h, s') := by
  cases result with
  | error e => exact absurd hx (not_pass (asksOnly_fail c p ref previous _))
  | ok target =>
    rw [visitTarget] at hx
    split at hx
    · exact absurd hx (not_pass (asksOnly_visitPaused c p ref previous target))
    · rename_i hpaused
      obtain ⟨rfl, hensured⟩ := pass_of_visitActive hx
      exact ⟨rfl, by simpa using hpaused, target, rfl, hensured⟩

theorem pass_of_visit {previous : PolicyState} (hx : (.evaluate q h, s') ∈ (visit c p ref previous).asked answer s) :
    q = p ∧ p.spec.paused = false ∧ ∃ target, WatchTarget.ofPolicy? p = some (.ok target) ∧
      ∃ s₁ s₂ outcome, answer (.ensure ref.uid target (c.rateFor p)) s₁ = some (.ok outcome, s₂) ∧
        answer (.handles ref.uid) s₂ = some (some h, s') := by
  obtain ⟨now, s₁, -, hx⟩ := exists_answer_of_pass hx trivial
  obtain ⟨-, s₂, -, hx⟩ := exists_answer_of_pass hx trivial
  -- whether problems are reported or not
  have hrest : ∃ s₃, (.evaluate q h, s') ∈
      Program.asked answer (require (WatchTarget.ofPolicy? p) >>= visitTarget c p ref previous) s₃ := by
    dsimp only at hx
    by_cases hproblems : (!p.unreportedProblems.isEmpty) = true
    · rw [if_pos hproblems] at hx
      obtain ⟨-, s₃, -, hx⟩ := exists_answer_of_pass hx trivial
      exact ⟨s₃, hx⟩
    · rw [if_neg hproblems] at hx
      exact ⟨s₂, hx⟩
  obtain ⟨s₃, hx⟩ := hrest
  obtain ⟨result, hresult, hx⟩ := exists_some_of_pass hx
  obtain ⟨rfl, hactive, target, rfl, hensured⟩ := pass_of_visitTarget hx
  exact ⟨rfl, hactive, target, hresult, s₃, hensured⟩

/-- A visit that asks for a pass asks for one of its policy, and has been admitted to it. -/
theorem admitted_of_mem_asked (hx : (.evaluate q h, s') ∈ (apply c p).asked answer s) :
    q = p ∧ ∃ ref target, Admitted c p answer s ref target h s' := by
  cases href : PolicyRef.ofPolicy p with
  | error key =>
    unfold apply at hx
    rw [href] at hx
    cases hx
  | ok ref =>
    rw [apply_eq c p href] at hx
    obtain ⟨leads, s₁, hleads, hx⟩ := exists_answer_of_pass hx trivial
    cases leads with
    | false =>
      have haside : AsksOnly Question.IsNoPass (stepAside c ref) := ⟨trivial, fun _ => ⟨trivial, fun _ => trivial⟩⟩
      exact (haside.of_mem_asked hx).elim
    | true =>
      obtain ⟨previous, s₂, -, hx⟩ := exists_answer_of_pass hx trivial
      obtain ⟨left, s₃, -, hx⟩ := exists_run_of_pass (asksOnly_wait c p ref) hx
      cases left with
      | some left => cases hx
      | none =>
        obtain ⟨rfl, hactive, target, htarget, hensured⟩ := pass_of_visit (Program.mem_asked_of_mem_asked_map hx)
        exact ⟨rfl, ref, target, href, ⟨s₁, hleads⟩, hactive, htarget, hensured⟩

end Reconciling

end Reaper
