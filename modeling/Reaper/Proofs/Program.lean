import Reaper.Program

/-!
What programs ask, and what their runs yield.

  §1 Questions that are asked   — `asked` lists the questions of a run, each with the state in which it is asked, also
                                  when an answer is missing and the run ends there.
  §2 Questions that can be asked — `AsksOnly` bounds the questions of a program whatever the answers are. A part of a
                                  program that cannot ask a question is passed over (`exists_run_of_mem_asked_bind`).
  §3 What runs yield            — `Yields` bounds what a run that ends leaves: the questions it has asked, its value and
                                  the state. It follows the program question by question (`Yields.ask`).
  §4 What runs come to          — `ComesTo` bounds what a run has asked and what it ends with, also when it does not end.
-/

namespace Reaper.Program

variable {Q : Type} {A : Q → Type} {α β σ : Type}

/-! ## §1 Questions that are asked -/

/-- The questions of a run in order, each with the state in which it is asked. -/
def asked (answer : (q : Q) → σ → Option (A q × σ)) : Program Q A α → σ → List (Q × σ)
  | done _, _ => []
  | ask q next, s =>
    (q, s) ::
      match answer q s with
      | none => []
      | some (a, s) => (next a).asked answer s

variable (answer : (q : Q) → σ → Option (A q × σ))

/-- A program in two parts asks the questions of the first part, and if that ends, those of the second. -/
theorem asked_bind (p : Program Q A α) (f : α → Program Q A β) (s : σ) :
    (p.bind f).asked answer s = p.asked answer s ++ ((p.run answer s).elim [] fun r => (f r.1).asked answer r.2) := by
  induction p generalizing s with
  | done a => rfl
  | ask q next ih =>
    simp only [bind, asked, run]
    cases answer q s with
    | none => rfl
    | some r => simp only [ih r.1 r.2, List.cons_append]

/-- What is done with the value of a program asks nothing. -/
theorem mem_asked_of_mem_asked_map {answer : (q : Q) → σ → Option (A q × σ)} {p : Program Q A α} {f : α → β} {s : σ}
    {x : Q × σ} (hx : x ∈ (p >>= fun a => pure (f a)).asked answer s) : x ∈ p.asked answer s := by
  rw [show (p >>= fun a => pure (f a)) = p.bind fun a => done (f a) from rfl, asked_bind, List.mem_append] at hx
  rcases hx with hx | hx
  · exact hx
  · rcases hr : p.run answer s with _ | r <;> rw [hr] at hx <;> cases hx

/-- What every answer keeps holds whenever a question is asked. -/
theorem holds_of_mem_asked {answer : (q : Q) → σ → Option (A q × σ)} {I : σ → Prop}
    (hkeeps : ∀ {q a s s'}, I s → answer q s = some (a, s') → I s') {p : Program Q A α} {s : σ} (h : I s) {x : Q × σ}
    (hx : x ∈ p.asked answer s) : I x.2 := by
  induction p generalizing s with
  | done a => cases hx
  | ask q next ih =>
    rw [asked, List.mem_cons] at hx
    rcases hx with rfl | hx
    · exact h
    · cases hanswer : answer q s with
      | none =>
        rw [hanswer] at hx
        cases hx
      | some r =>
        rw [hanswer] at hx
        exact ih r.1 (hkeeps h hanswer) hx

/-- It holds at the end, too. -/
theorem holds_of_run {answer : (q : Q) → σ → Option (A q × σ)} {I : σ → Prop}
    (hkeeps : ∀ {q a s s'}, I s → answer q s = some (a, s') → I s') {p : Program Q A α} {s : σ} (h : I s) {r : α × σ}
    (hrun : p.run answer s = some r) : I r.2 := by
  induction p generalizing s with
  | done a =>
    cases hrun
    exact h
  | ask q next ih =>
    rw [run] at hrun
    cases hanswer : answer q s with
    | none =>
      rw [hanswer] at hrun
      cases hrun
    | some a =>
      rw [hanswer] at hrun
      exact ih a.1 (hkeeps h hanswer) hrun

/-! ## §2 Questions that can be asked -/

/-- Whatever the answers are, the program asks only questions that satisfy `P`. -/
def AsksOnly (P : Q → Prop) : Program Q A α → Prop
  | done _ => True
  | ask q next => P q ∧ ∀ a, (next a).AsksOnly P

variable {P : Q → Prop} {answer}

theorem AsksOnly.pure (a : α) : AsksOnly P (Pure.pure a : Program Q A α) := trivial

theorem AsksOnly.bind {p : Program Q A α} {f : α → Program Q A β} (hp : p.AsksOnly P) (hf : ∀ a, (f a).AsksOnly P) :
    (p >>= f).AsksOnly P := by
  induction p with
  | done a => exact hf a
  | ask q next ih => exact ⟨hp.1, fun a => ih a (hp.2 a)⟩

theorem AsksOnly.mono {P' : Q → Prop} {p : Program Q A α} (hp : p.AsksOnly P) (h : ∀ q, P q → P' q) :
    p.AsksOnly P' := by
  induction p with
  | done a => trivial
  | ask q next ih => exact ⟨h q hp.1, fun a => ih a (hp.2 a)⟩

/-- What a run asks, the program can ask. -/
theorem AsksOnly.of_mem_asked {p : Program Q A α} (hp : p.AsksOnly P) {s : σ} {x : Q × σ} (hx : x ∈ p.asked answer s) :
    P x.1 := by
  induction p generalizing s with
  | done a => cases hx
  | ask q next ih =>
    rw [asked, List.mem_cons] at hx
    rcases hx with rfl | hx
    · exact hp.1
    · split at hx
      · cases hx
      · exact ih _ (hp.2 _) hx

/-- A question that the first part cannot ask is asked by the second part, after a run of the first. -/
theorem exists_run_of_mem_asked_bind {p : Program Q A α} {f : α → Program Q A β} (hp : p.AsksOnly P) {s : σ}
    {x : Q × σ} (hP : ¬ P x.1) (hx : x ∈ (p >>= f).asked answer s) :
    ∃ a s', p.run answer s = some (a, s') ∧ x ∈ (f a).asked answer s' := by
  rw [show (p >>= f) = p.bind f from rfl, asked_bind, List.mem_append] at hx
  rcases hx with hx | hx
  · exact absurd (hp.of_mem_asked hx) hP
  · cases hrun : p.run answer s with
    | none =>
      rw [hrun] at hx
      cases hx
    | some r =>
      rw [hrun] at hx
      exact ⟨r.1, r.2, rfl, hx⟩

/-! ## §3 What runs yield -/

/-- If the program ends, the questions of its run, its value and the state that is left satisfy `R`. -/
def Yields (answer : (q : Q) → σ → Option (A q × σ)) (p : Program Q A α) (s : σ) (R : List Q → α → σ → Prop) : Prop :=
  ∀ a s', p.run answer s = some (a, s') → R ((p.asked answer s).map (·.1)) a s'

theorem Yields.mono {p : Program Q A α} {s : σ} {R R' : List Q → α → σ → Prop} (h : p.Yields answer s R)
    (hR : ∀ qs a s', R qs a s' → R' qs a s') : p.Yields answer s R' :=
  fun a s' hrun => hR _ a s' (h a s' hrun)

theorem Yields.pure {a : α} {s : σ} {R : List Q → α → σ → Prop} (h : R [] a s) :
    (Pure.pure a : Program Q A α).Yields answer s R := by
  intro a' s' hrun
  cases hrun
  exact h

theorem Yields.query {q : Q} {s : σ} {R : List Q → A q → σ → Prop}
    (h : ∀ a s', answer q s = some (a, s') → R [q] a s') : (Program.query q : Program Q A (A q)).Yields answer s R := by
  intro a s' hrun
  cases hanswer : answer q s with
  | none =>
    rw [Program.query, run, hanswer] at hrun
    cases hrun
  | some r =>
    rw [Program.query, run, hanswer] at hrun
    rw [Program.query, asked, hanswer]
    cases hrun
    exact h r.1 r.2 hanswer

/-- A question and what comes after it. -/
theorem Yields.ask {q : Q} {f : A q → Program Q A α} {s : σ} {R : List Q → α → σ → Prop}
    (h : ∀ a s', answer q s = some (a, s') → (f a).Yields answer s' fun qs b s'' => R (q :: qs) b s'') :
    (Program.query q >>= f).Yields answer s R := by
  intro b s'' hrun
  rw [show (Program.query q >>= f) = Program.ask q f from rfl] at hrun ⊢
  cases hanswer : answer q s with
  | none =>
    rw [run, hanswer] at hrun
    cases hrun
  | some r =>
    rw [run, hanswer] at hrun
    rw [asked, hanswer]
    exact h r.1 r.2 hanswer b s'' hrun

/-- A program in two parts yields what its second part does. -/
theorem Yields.bind {p : Program Q A α} {f : α → Program Q A β} {s : σ} {R : List Q → β → σ → Prop}
    (h : p.Yields answer s fun qs a s' => (f a).Yields answer s' fun qs' b s'' => R (qs ++ qs') b s'') :
    (p >>= f).Yields answer s R := by
  intro b s'' hrun
  rw [show (p >>= f) = p.bind f from rfl] at hrun ⊢
  rw [run_bind] at hrun
  obtain ⟨⟨a, s'⟩, hfirst, hsecond⟩ := Option.bind_eq_some_iff.mp hrun
  have hyields := h a s' hfirst b s'' hsecond
  rw [asked_bind, hfirst]
  simpa using hyields

/-- What every question that a program can ask keeps is kept by its runs. -/
theorem AsksOnly.yields {p : Program Q A α} (hp : p.AsksOnly P) {I : σ → Prop}
    (hkeeps : ∀ {q a s s'}, P q → I s → answer q s = some (a, s') → I s') {s : σ} (h : I s) :
    p.Yields answer s fun _ _ s' => I s' := by
  induction p generalizing s with
  | done a => exact .pure h
  | ask q next ih => exact .ask fun a s' hanswer => ih a (hp.2 a) (hkeeps hp.1 h hanswer)

/-! ## §4 What runs come to -/

/-- The questions of the run, and what it ends with if it does, satisfy `R`. -/
def ComesTo (answer : (q : Q) → σ → Option (A q × σ)) (p : Program Q A α) (s : σ)
    (R : List (Q × σ) → Option (α × σ) → Prop) : Prop :=
  R (p.asked answer s) (p.run answer s)

theorem ComesTo.mono {p : Program Q A α} {s : σ} {R R' : List (Q × σ) → Option (α × σ) → Prop}
    (h : p.ComesTo answer s R) (hR : ∀ t r, R t r → R' t r) : p.ComesTo answer s R' :=
  hR _ _ h

theorem ComesTo.pure {a : α} {s : σ} {R : List (Q × σ) → Option (α × σ) → Prop} (h : R [] (some (a, s))) :
    (Pure.pure a : Program Q A α).ComesTo answer s R :=
  h

/-- A question, which may have no answer, and what comes after it. -/
theorem ComesTo.ask {q : Q} {f : A q → Program Q A α} {s : σ} {R : List (Q × σ) → Option (α × σ) → Prop}
    (hnone : answer q s = none → R [(q, s)] none)
    (h : ∀ a s', answer q s = some (a, s') → (f a).ComesTo answer s' fun t r => R ((q, s) :: t) r) :
    (Program.query q >>= f).ComesTo answer s R := by
  rw [show (Program.query q >>= f) = Program.ask q f from rfl, ComesTo, asked, run]
  cases hanswer : answer q s with
  | none => exact hnone hanswer
  | some r => exact h r.1 r.2 hanswer

/-- A question with a known answer, and what comes after it. -/
theorem ComesTo.answered {q : Q} {a : A q} {f : A q → Program Q A α} {s s' : σ}
    {R : List (Q × σ) → Option (α × σ) → Prop} (hanswer : answer q s = some (a, s'))
    (h : (f a).ComesTo answer s' fun t r => R ((q, s) :: t) r) : (Program.query q >>= f).ComesTo answer s R := by
  refine .ask (fun hnone => (Option.some_ne_none _ (hanswer.symm.trans hnone)).elim) fun a' s'' hanswer' => ?_
  obtain ⟨rfl, rfl⟩ := Prod.mk.inj (Option.some.inj (hanswer.symm.trans hanswer'))
  exact h

/-- A part that has ended, and what comes after it. -/
theorem ComesTo.after {p : Program Q A α} {f : α → Program Q A β} {s s' : σ} {a : α}
    {R : List (Q × σ) → Option (β × σ) → Prop} (hrun : p.run answer s = some (a, s'))
    (h : (f a).ComesTo answer s' fun t r => R (p.asked answer s ++ t) r) : (p >>= f).ComesTo answer s R := by
  rw [show (p >>= f) = p.bind f from rfl, ComesTo, asked_bind, run_bind, hrun]
  exact h

/-- What is done with the value of a program. -/
theorem ComesTo.map {p : Program Q A α} {f : α → β} {s : σ} {R : List (Q × σ) → Option (β × σ) → Prop}
    (h : p.ComesTo answer s fun t r => R t (r.map fun x => (f x.1, x.2))) :
    (p >>= fun a => Pure.pure (f a)).ComesTo answer s R := by
  rw [show (p >>= fun a => Pure.pure (f a)) = p.bind fun a => done (f a) from rfl, ComesTo, asked_bind, run_bind]
  unfold ComesTo at h
  cases hrun : p.run answer s with
  | none =>
    rw [hrun] at h
    simpa using h
  | some r =>
    rw [hrun] at h
    simpa [asked, run] using h

/-- A run that ends has had all its questions answered. -/
theorem isSome_of_mem_asked {p : Program Q A α} {s : σ} {r : α × σ} (hrun : p.run answer s = some r) {x : Q × σ}
    (hx : x ∈ p.asked answer s) : (answer x.1 x.2).isSome = true := by
  induction p generalizing s with
  | done a => cases hx
  | ask q next ih =>
    rw [asked, List.mem_cons] at hx
    rw [run] at hrun
    cases hanswer : answer q s with
    | none => simp [hanswer] at hrun
    | some a =>
      rw [hanswer] at hrun hx
      rcases hx with rfl | hx
      · simp [hanswer]
      · exact ih a.1 hrun hx

end Reaper.Program
