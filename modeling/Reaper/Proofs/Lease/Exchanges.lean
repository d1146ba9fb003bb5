import Reaper.Lease.Election

/-!
What a claim says to the server, and what its outcome means.

`Api.recorded` is a server that also keeps a record of what it was asked and what it replied, and `Api.logged` one that
keeps a log of what it was asked. Sections:

  §1 Recording   — a server that takes notes serves a program as the server itself (`TakesNotes.serve`), and one call
                   adds at most one exchange to the record (`serve_call`).
  §2 Claims      — a claim succeeds exactly when the server has accepted a write of the lease
                   (`claim_ok_iff_renewed`). Whatever else happens, the server has accepted none.
-/

namespace Reaper

/-! ## §1 Recording -/

namespace Api

/-- A request and the reply to it. -/
abbrev Record := List (Request × Response)

variable {σ α β : Type} (answer : Request → σ → Option Response × σ)

/-- The server `noting` answers as the server itself, and takes notes besides. -/
def TakesNotes {ν : Type} (noting : Request → σ × ν → Option Response × σ × ν) : Prop :=
  ∀ q s, (noting q s).1 = (answer q s.1).1 ∧ (noting q s).2.1 = (answer q s.1).2

variable {answer} in
/-- Notes change nothing about a program that is served. -/
theorem TakesNotes.serve {ν : Type} {noting : Request → σ × ν → Option Response × σ × ν} (h : TakesNotes answer noting)
    (p : Exchange α) (s : σ × ν) :
    (p.serve noting s).1 = (p.serve answer s.1).1 ∧ (p.serve noting s).2.1 = (p.serve answer s.1).2 := by
  induction p generalizing s with
  | done a => exact ⟨rfl, rfl⟩
  | ask q next ih =>
    obtain ⟨hreply, hworld⟩ := h q s
    simp only [Program.serve]
    generalize noting q s = noted at hreply hworld
    generalize answer q s.1 = plain at hreply hworld
    obtain ⟨reply, world, notes⟩ := noted
    obtain ⟨reply', world'⟩ := plain
    obtain rfl : reply = reply' := hreply
    obtain rfl : world = world' := hworld
    cases reply with
    | none => exact ⟨rfl, rfl⟩
    | some r => exact ih r (world, notes)

/-- The server with a record of its replies, the latest last. -/
def recorded (q : Request) (s : σ × Record) : Option Response × σ × Record :=
  match answer q s.1 with
  | (some r, world) => (some r, world, s.2 ++ [(q, r)])
  | (none, world) => (none, world, s.2)

theorem takesNotes_recorded : TakesNotes answer (recorded answer) := by
  intro q s
  unfold recorded
  rcases answer q s.1 with ⟨_ | r, world⟩
  · exact ⟨rfl, rfl⟩
  · exact ⟨rfl, rfl⟩

/-- The server with a log of what it was asked, the latest last. Unlike a record, a log has also what was never
replied to. -/
def logged (q : Request) (s : σ × List Request) : Option Response × σ × List Request :=
  let (r, world) := answer q s.1
  (r, world, s.2 ++ [q])

theorem takesNotes_logged : TakesNotes answer (logged answer) := fun _ _ => ⟨rfl, rfl⟩

theorem serve_bind (p : Exchange α) (f : α → Exchange β) (s : σ × Record) :
    (p >>= f).serve (recorded answer) s =
      match p.serve (recorded answer) s with
      | (none, s) => (none, s)
      | (some a, s) => (f a).serve (recorded answer) s := by
  refine (Program.serve_bind (recorded answer) p f s).trans ?_
  rcases p.serve (recorded answer) s with ⟨_ | a, s⟩ <;> rfl

/-- A call either is not sent, or has no reply, or adds itself to the record and is read. -/
theorem serve_call (q : Request) (read : Response → Except Fault α) (world : σ) (record : Record) :
    (∃ text, (call q read).serve (recorded answer) (world, record) =
        (some (.error (.unsendable text)), world, record)) ∨
      (∃ world', (call q read).serve (recorded answer) (world, record) = (none, world', record)) ∨
      ∃ r world', (call q read).serve (recorded answer) (world, record) =
        (some (read r), world', record ++ [(q, r)]) := by
  unfold call
  split
  · rename_i text _
    exact .inl ⟨text, rfl⟩
  · refine .inr ?_
    simp only [serve_bind, Program.query, Program.serve, recorded]
    rcases h : answer q world with ⟨_ | r, world'⟩
    · exact .inl ⟨world', rfl⟩
    · exact .inr ⟨r, world', rfl⟩

/-- The same for a call on an object by its name. -/
theorem serve_callNamed (name : String) (q : Request) (read : Response → Except Fault α) (world : σ)
    (record : Record) :
    (∃ text, (callNamed name q read).serve (recorded answer) (world, record) =
        (some (.error (.unsendable text)), world, record)) ∨
      (∃ world', (callNamed name q read).serve (recorded answer) (world, record) = (none, world', record)) ∨
      ∃ r world', (callNamed name q read).serve (recorded answer) (world, record) =
        (some (read r), world', record ++ [(q, r)]) := by
  unfold callNamed
  split
  · exact .inl ⟨_, rfl⟩
  · exact serve_call answer q read world record

end Api

/-! ## §2 Claims -/

namespace Candidate

variable {σ : Type} (c : Candidate) (answer : Api.Request → σ → Option Api.Response × σ)

/-- The exchange wrote the lease: the server was asked to create or to replace it, and replied with the lease. -/
def isRenewal (x : Api.Request × Api.Response) : Bool :=
  (x.1.method = .post || x.1.method = .put) && (x.2.decode Lease.decode?).isOk

/-- The server has accepted a write of the lease. -/
def renewed (record : Api.Record) : Bool := record.any isRenewal

/-- A write succeeds exactly when the reply holds a lease. -/
theorem written_eq_ok_iff (x : Except Fault Lease) : written x = .ok () ↔ x.isOk = true := by
  rcases x with fault | l
  · cases fault with
    | api status message reason code =>
      simp only [written, Except.isOk, Except.toBool]
      split <;> simp
    | _ => simp [written, Except.isOk, Except.toBool]
  · simp [written, Except.isOk, Except.toBool]

/-- A write of the lease that had a reply succeeds exactly when it is a renewal. -/
theorem written_eq_ok_iff_isRenewal (q : Api.Request) (r : Api.Response) (h : q.method = .post ∨ q.method = .put) :
    written (r.decode Lease.decode?) = .ok () ↔ isRenewal (q, r) = true := by
  rw [written_eq_ok_iff]
  rcases h with h | h <;> simp [isRenewal, h]

/-- Reading the lease writes nothing: whatever was read, no exchange of it is a renewal. -/
theorem serve_read (world : σ) :
    ∃ found world' record, c.read.serve (Api.recorded answer) (world, []) = (found, world', record) ∧
      renewed record = false := by
  unfold read
  rw [Api.serve_bind]
  obtain ⟨text, h⟩ | ⟨world', h⟩ | ⟨r, world', h⟩ :=
    Api.serve_callNamed answer c.leaseName
      { method := .get, path := c.leases.objectPath c.leaseName, bare := true }
      (Api.Response.decode Lease.decode?) world []
  · exact ⟨_, world, [], by rw [h]; rfl, rfl⟩
  · exact ⟨none, world', [], by rw [h], rfl⟩
  · simp only [h]
    split
    · exact ⟨_, world', _, rfl, rfl⟩
    · split
      · exact ⟨_, world', _, rfl, rfl⟩
      · exact ⟨_, world', _, rfl, rfl⟩
    · exact ⟨_, world', _, rfl, rfl⟩

/-- A move succeeds exactly when it adds a renewal to the record. -/
theorem serve_perform (m : LeaseMove) (world : σ) (record : Api.Record) :
    ∃ done world' more, (c.perform m).serve (Api.recorded answer) (world, record) = (done, world', record ++ more) ∧
      ∀ outcome, done = some outcome → (outcome = .ok () ↔ renewed more = true) := by
  cases m with
  | refrain e =>
    refine ⟨some (.error e), world, [], by simp [perform, pure, Program.serve], ?_⟩
    rintro outcome ⟨⟩
    simp [renewed]
  | create l =>
    simp only [perform, Api.serve_bind]
    obtain ⟨text, h⟩ | ⟨world', h⟩ | ⟨r, world', h⟩ :=
      Api.serve_call answer { method := .post, path := c.leases.path, content := some (.json, l.encode) }
        (Api.Response.decode Lease.decode?) world record
    · refine ⟨some (.error (.api (.unsendable text))), world, [], by simp [h, pure, Program.serve, written], ?_⟩
      rintro outcome ⟨⟩
      simp [renewed]
    · exact ⟨none, world', [], by simp [h], by simp⟩
    · refine ⟨_, world', [(_, r)], by rw [h]; rfl, ?_⟩
      rintro outcome ⟨⟩
      simpa [renewed] using written_eq_ok_iff_isRenewal _ r (.inl rfl)
  | replace l =>
    simp only [perform, Api.serve_bind]
    obtain ⟨text, h⟩ | ⟨world', h⟩ | ⟨r, world', h⟩ :=
      Api.serve_callNamed answer c.leaseName
        { method := .put, path := c.leases.objectPath c.leaseName, content := some (.json, l.encode) }
        (Api.Response.decode Lease.decode?) world record
    · refine ⟨some (.error (.api (.unsendable text))), world, [], by simp [h, pure, Program.serve, written], ?_⟩
      rintro outcome ⟨⟩
      simp [renewed]
    · exact ⟨none, world', [], by simp [h], by simp⟩
    · refine ⟨_, world', [(_, r)], by rw [h]; rfl, ?_⟩
      rintro outcome ⟨⟩
      simpa [renewed] using written_eq_ok_iff_isRenewal _ r (.inr rfl)

/-- A claim that ended has succeeded exactly when the server accepted a write of the lease during it. -/
theorem claim_ok_iff_renewed (time : Instant) (world world' : σ) (record : Api.Record)
    (outcome : Except ClaimError Unit)
    (h : (c.claim time).serve (Api.recorded answer) (world, []) = (some (some outcome), world', record)) :
    outcome = .ok () ↔ renewed record = true := by
  unfold claim at h
  rw [Api.serve_bind] at h
  obtain ⟨found, world₁, record₁, hread, hnone⟩ := c.serve_read answer world
  rw [hread] at h
  rcases found with _ | (fault | l)
  · simp at h
  · simp only [pure, Program.serve, Prod.mk.injEq, Option.some.injEq] at h
    obtain ⟨rfl, -, rfl⟩ := h
    simp [hnone]
  · simp only at h
    split at h
    · simp [pure, Program.serve] at h
    · rename_i m _
      rw [Api.serve_bind] at h
      obtain ⟨done, world₂, more, hperform, hdone⟩ := c.serve_perform answer m world₁ record₁
      rw [hperform] at h
      rcases done with _ | o
      · simp at h
      · simp only [pure, Program.serve, Prod.mk.injEq, Option.some.injEq] at h
        obtain ⟨rfl, -, rfl⟩ := h
        rw [hdone o rfl]
        simp only [renewed, List.any_append, Bool.or_eq_true] at hnone ⊢
        simp [hnone]

end Candidate

end Reaper
