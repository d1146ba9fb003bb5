import Reaper.Proofs.Ttl.FirstMode
import Reaper.Proofs.View.Quantity

/-!
# Longer times to live

More seconds from the same instant are a later expiration, also where the instant lies in a leap second, and what has
expired stays expired. So a resource that has not expired does not expire by raising the seconds of its rule, a mapping
or the value of its field (`expiry_is_monotone`), unless there was no sum before: a sum before the first representable
instant is no sum, and raised it may be one.

  §1 Out of range — sums that do not exist.
  §2 Raising      — the ways in which a time to live gets longer, and what is counted afterwards.
  §3 Expiration   — the order of expirations.
-/

namespace Reaper

open Duration (perSecond)

/-! ## §1 Out of range -/

/-- The representable instants span less than `2 ^ 44` seconds. -/
theorem Instant.IsSum.bounds {base t : Instant} {s : Int} (hbase : base.IsProper) (h : base.IsSum s t) :
    -2 ^ 44 < s ∧ s < 2 ^ 44 := by
  have hfirst : Instant.firstSecond = -8334601228800 := by decide
  have hlast : Instant.lastSecond = 8210266876799 := by decide
  obtain ⟨hrange, hnanos⟩ := hbase
  obtain ⟨hsum, ⟨hsumnanos, -⟩, hapart⟩ := h
  simp only [Instant.inRange, Bool.and_eq_true, decide_eq_true_eq, hfirst, hlast] at hrange hsum
  unfold Instant.place at hapart
  simp only [perSecond] at *
  split at hapart <;> split at hapart <;> omega

namespace Tenure

variable {x y : Tenure} {base due due' now now' : Instant} {s s' : Int}

/-- There is no sum of what the rule counts. The number in a field may be so small that it is no number of seconds; then
there is no sum with its whole part either. -/
inductive OutOfRange (x : Tenure) : Prop
  | sum {base : Instant} {s : Int} (hcounts : x.Counts base s) (hnone : ∀ due, ¬ base.IsSum s due) : OutOfRange x
  | value {path : String} {v : Json} {q : Rat} {base : Instant} (hmode : x.rule.Selects .fieldPath)
      (hpath : x.rule.fieldPath = some path) (hfinds : x.Finds path v) (hquantity : v.quantity? = some q)
      (hview : v.asInt? = none) (hbase : x.resource.metadata.creationTimestamp = some base)
      (hnone : ∀ due, ¬ base.IsSum (Json.whole q) due) : OutOfRange x

/-! ## §2 Raising -/

/-- The time to live of the second is that of the first, or a longer one: one of the numbers of the rule is raised, or
the number in the field that the rule takes the seconds from. -/
inductive Raises : Tenure → Tenure → Prop
  | secondsAfterCreation (x : Tenure) {s s' : Int} (hseconds : x.rule.secondsAfterCreation = some s) (hle : s ≤ s') :
      Raises x { x with rule := { x.rule with secondsAfterCreation := some s' } }
  | mapping (x : Tenure) {mappings : Dictionary Int} {key : String} {s s' : Int} (hmappings : x.rule.mappings = some mappings)
      (hseconds : mappings.get? key = some s) (hle : s ≤ s') :
      Raises x { x with rule := { x.rule with mappings := some (mappings.insert key s') } }
  | default (x : Tenure) {s s' : Int} (hseconds : x.rule.default = some s) (hle : s ≤ s') :
      Raises x { x with rule := { x.rule with default := some s' } }
  | secondsAfter (x : Tenure) {s' : Int} (hle : x.rule.secondsAfter.getD 0 ≤ s') :
      Raises x { x with rule := { x.rule with secondsAfter := some s' } }
  | value {x y : Tenure} {path : String} {v w : Json} {p q : Rat} (hrule : y.rule = x.rule)
      (hbase : y.resource.metadata.creationTimestamp = x.resource.metadata.creationTimestamp)
      (hmode : x.rule.Selects .fieldPath) (hpath : x.rule.fieldPath = some path) (hv : x.Finds path v)
      (hw : y.Finds path w) (hp : v.quantity? = some p) (hq : w.quantity? = some q) (hle : p ≤ q) : Raises x y

theorem counts_iff : x.Counts base s ↔ ∃ mode, TtlMode.of? x.rule = some mode ∧
    x.rule.base? x.resource x.document mode = some base ∧ x.rule.seconds? x.document mode = some s := by
  simp only [Counts, ← TtlSpec.of?_eq_some_iff, gives_iff]

/-- A rule that counts no fewer seconds in any mode, and from the same instant. -/
theorem exists_counts_of_rule {t : TtlSpec} (h : ({ x with rule := t } : Tenure).Counts base s')
    (hmode : TtlMode.of? t = TtlMode.of? x.rule) (hrelative : t.relativeTo = x.rule.relativeTo)
    (hseconds : ∀ mode n, t.seconds? x.document mode = some n → ∃ s ≤ n, x.rule.seconds? x.document mode = some s) :
    ∃ s ≤ s', x.Counts base s := by
  obtain ⟨mode, hof, hbase', hseconds'⟩ := counts_iff.mp h
  obtain ⟨s, hle, hs⟩ := hseconds mode s' hseconds'
  have hbase : t.base? x.resource x.document mode = x.rule.base? x.resource x.document mode := by
    cases mode <;> simp only [TtlSpec.base?, hrelative]
  exact ⟨s, hle, counts_iff.mpr ⟨mode, hmode ▸ hof, hbase ▸ hbase', hs⟩⟩

/-- Raised numbers for texts are raised seconds. -/
theorem exists_seconds_of_mapped {t u : TtlSpec} {doc : Json} {n : Int} (hn : u.seconds? doc .mapped = some n)
    (hpath : u.fieldPath = t.fieldPath)
    (h : ∀ text n, (u.mappings.bind (·.get? text)).or u.default = some n →
      ∃ s ≤ n, (t.mappings.bind (·.get? text)).or t.default = some s) : ∃ s ≤ n, t.seconds? doc .mapped = some s := by
  obtain ⟨path, hu, v, hv, text, htext, hmapped⟩ := TtlSpec.seconds?_mapped_iff.mp hn
  obtain ⟨s, hle, hs⟩ := h text n hmapped
  exact ⟨s, hle, TtlSpec.seconds?_mapped_iff.mpr ⟨path, hpath ▸ hu, v, hv, text, htext, hs⟩⟩

/-- A raised value in the field is raised seconds, if it was a number of seconds before. -/
theorem exists_counts_of_value {path : String} {v w : Json} {p q : Rat} (hrule : y.rule = x.rule)
    (hbase : y.resource.metadata.creationTimestamp = x.resource.metadata.creationTimestamp)
    (hmode : x.rule.Selects .fieldPath) (hpath : x.rule.fieldPath = some path) (hv : x.Finds path v)
    (hw : y.Finds path w) (hp : v.quantity? = some p) (hq : w.quantity? = some q) (hle : p ≤ q)
    (hcounts : y.Counts base s') (hsum : base.IsSum s' due') : (∃ s ≤ s', x.Counts base s) ∨ x.OutOfRange := by
  have hproper := hcounts.isProper
  obtain ⟨mode, hof, hbase', hseconds⟩ := counts_iff.mp hcounts
  rw [← lookup?_eq_some_iff] at hw
  rw [hrule, TtlSpec.of?_eq_some_iff.mpr hmode] at hof
  cases hof
  have hcreated : x.resource.metadata.creationTimestamp = some base := hbase ▸ hbase'
  have hview : w.asInt? = some s' := by simpa [TtlSpec.seconds?, hrule, hpath, hw] using hseconds
  cases hv' : v.asInt? with
  | some s => exact .inl ⟨s, Json.asInt?_mono hp hq hle hv' hview, .fieldPath, hmode, .fieldPath hpath hv hv' hcreated⟩
  | none =>
    rcases Json.beyond_of_asInt?_eq_none hp hv' with hlow | hhigh
    · refine .inr (.value hmode hpath hv hp hv' hcreated fun due hdue => ?_)
      have hwhole : Json.whole p ≤ -2 ^ 63 := Json.whole_le_of_le (by exact_mod_cast hlow.le)
      have := (hdue.bounds hproper).1
      omega
    · -- a number beyond the upper end is raised to another one, of which there is no sum
      have hwhole : 2 ^ 63 ≤ Json.whole q := Json.le_whole_of_le (by exact_mod_cast hhigh.le.trans hle)
      have hlarge : s' = Json.clamped (Json.whole q) := Json.asInt?_eq_clamped hq hview
      have := (hsum.bounds hproper).2
      unfold Json.clamped Json.int64Range at hlarge
      omega

/-- Before a number was raised no more seconds were counted, or there was no sum. -/
theorem Raises.exists_counts (h : x.Raises y) (hcounts : y.Counts base s') (hsum : base.IsSum s' due') :
    (∃ s ≤ s', x.Counts base s) ∨ x.OutOfRange := by
  cases h with
  | secondsAfterCreation hseconds hle =>
    refine .inl (exists_counts_of_rule hcounts (by simp only [TtlMode.of?, hseconds, Option.isSome_some]) rfl
      fun mode n hn => ?_)
    cases mode with
    | fixed =>
      cases hn
      exact ⟨_, hle, hseconds⟩
    | _ => exact ⟨n, le_rfl, hn⟩
  | mapping hmappings hseconds hle =>
    refine .inl (exists_counts_of_rule hcounts (by simp only [TtlMode.of?, hmappings, Option.isSome_some]) rfl
      fun mode n hn => ?_)
    cases mode with
    | mapped =>
      refine exists_seconds_of_mapped hn rfl fun text k hk => ?_
      simp only [Option.bind_some, Dictionary.get?_insert, hmappings] at hk ⊢
      split at hk
      · rename_i hkey
        cases hk
        exact ⟨_, hle, by simp [← hkey, hseconds]⟩
      · exact ⟨k, le_rfl, hk⟩
    | _ => exact ⟨n, le_rfl, hn⟩
  | default hseconds hle =>
    refine .inl (exists_counts_of_rule hcounts rfl rfl fun mode n hn => ?_)
    cases mode with
    | mapped =>
      refine exists_seconds_of_mapped hn rfl fun text k hk => ?_
      rcases Option.or_eq_some_iff.mp hk with hk | ⟨hnone, hk⟩
      · exact ⟨k, le_rfl, Option.or_eq_some_iff.mpr (.inl hk)⟩
      · cases hk
        exact ⟨_, hle, Option.or_eq_some_iff.mpr (.inr ⟨hnone, hseconds⟩)⟩
    | _ => exact ⟨n, le_rfl, hn⟩
  | secondsAfter hle =>
    refine .inl (exists_counts_of_rule hcounts rfl rfl fun mode n hn => ?_)
    cases mode with
    | relative =>
      cases hn
      exact ⟨_, hle, rfl⟩
    | _ => exact ⟨n, le_rfl, hn⟩
  | value hrule hbase hmode hpath hv hw hp hq hle =>
    exact exists_counts_of_value hrule hbase hmode hpath hv hw hp hq hle hcounts hsum

/-! ## §3 Expiration -/

theorem check_mono (h : x.check now = .expired due) (hnow : now ≤ now') : x.check now' = .expired due := by
  rw [check_eq_expired_iff] at h ⊢
  exact ⟨h.1, Instant.le_trans h.2 hnow⟩

/-- What has expired under the raised number had expired before, and no later. -/
theorem Raises.expired (h : x.Raises y) (hy : y.check now = .expired due') :
    (∃ due, due ≤ due' ∧ x.check now = .expired due) ∨ x.OutOfRange := by
  obtain ⟨hexpiration, hnow⟩ := check_eq_expired_iff.mp hy
  obtain ⟨base, s', hcounts', hsum'⟩ := expiration?_eq_some_iff.mp hexpiration
  refine (h.exists_counts hcounts' hsum').elim (fun hx => ?_) .inr
  obtain ⟨s, hle, hcounts⟩ := hx
  by_cases hsum : ∃ due, base.IsSum s due
  · obtain ⟨due, hdue⟩ := hsum
    have hbefore : due ≤ due' := hdue.le hsum' hle
    refine .inl ⟨due, hbefore, check_eq_expired_iff.mpr ⟨?_, Instant.le_trans hbefore hnow⟩⟩
    exact expiration?_eq_some_iff.mpr ⟨base, s, hcounts, hdue⟩
  · exact .inr (.sum hcounts (not_exists.mp hsum))

/-- Of two sums from one instant the one with more seconds is later. -/
theorem expiration?_lt (hx : x.Counts base s) (hy : y.Counts base s') (h : s < s') (hdue : x.expiration? = some due)
    (hdue' : y.expiration? = some due') : due < due' := by
  obtain ⟨base₁, s₁, hcounts, hsum⟩ := expiration?_eq_some_iff.mp hdue
  obtain ⟨base₂, s₂, hcounts', hsum'⟩ := expiration?_eq_some_iff.mp hdue'
  obtain ⟨rfl, rfl⟩ := hx.unique hcounts
  obtain ⟨rfl, rfl⟩ := hy.unique hcounts'
  exact hsum.lt hsum' h

/-- More seconds are a later expiration, and what has expired stays expired, with the same instant. Therefore a raised
number makes nothing expire that had not expired before, unless the sum with the smaller number was out of range. -/
theorem expiry_is_monotone :
    (∀ (x y : Tenure) base s s' due due', x.Counts base s → y.Counts base s' → s < s' → x.expiration? = some due →
      y.expiration? = some due' → due < due') ∧
    (∀ (x : Tenure) now now' due, x.check now = .expired due → now ≤ now' → x.check now' = .expired due) ∧
    ∀ (x y : Tenure) now due', x.Raises y → y.check now = .expired due' →
      (∃ due, due ≤ due' ∧ x.check now = .expired due) ∨ x.OutOfRange :=
  ⟨fun _ _ _ _ _ _ _ hx hy h hdue hdue' => expiration?_lt hx hy h hdue hdue', fun _ _ _ _ h hnow => check_mono h hnow,
    fun _ _ _ _ h hy => h.expired hy⟩

/-- A pod that was created half a second into a leap second, and is kept for some seconds. -/
def leapPod (s : Int) : Tenure :=
  .ofRead { secondsAfterCreation := some s }
    (j := .object [("metadata", .object [("creationTimestamp", .string "2016-12-31T23:59:60.5Z")])])
    (r := { metadata := { creationTimestamp := some ⟨1483228799, 1500000000⟩ } }) rfl

theorem leapPod_counts (s : Int) : (leapPod s).Counts ⟨1483228799, 1500000000⟩ s :=
  ⟨.fixed, .fixed (by simp [leapPod, ofRead]), .fixed rfl rfl⟩

/-- The second before the leap second comes before it, and what has expired by then stays expired. And a number of seconds
that takes the sum out of range does not let the pod expire, though one less than zero does. -/
theorem expirations_leapPod :
    (leapPod (-1)).expiration? = some ⟨1483228799, 500000000⟩ ∧
      (leapPod 0).expiration? = some ⟨1483228799, 1500000000⟩ ∧
      (⟨1483228799, 500000000⟩ : Instant) < ⟨1483228799, 1500000000⟩ ∧
      (leapPod (-10000000000000)).check ⟨1483228799, 500000000⟩ = .noTtl ∧
      (leapPod (-1)).check ⟨1483228799, 500000000⟩ = .expired ⟨1483228799, 500000000⟩ ∧
      (leapPod (-1)).check ⟨1483228800, 0⟩ = .expired ⟨1483228799, 500000000⟩ ∧
      (leapPod (-10000000000000)).OutOfRange := by
  have hearlier : (leapPod (-1)).expiration? = some ⟨1483228799, 500000000⟩ := by decide +kernel
  have hlater : (leapPod 0).expiration? = some ⟨1483228799, 1500000000⟩ := by decide +kernel
  have hnever : (leapPod (-10000000000000)).check ⟨1483228799, 500000000⟩ = .noTtl := by decide +kernel
  have hexpired : (leapPod (-1)).check ⟨1483228799, 500000000⟩ = .expired ⟨1483228799, 500000000⟩ := by decide +kernel
  have hraises : (leapPod (-10000000000000)).Raises (leapPod (-1)) :=
    .secondsAfterCreation (leapPod (-10000000000000)) rfl (by decide)
  refine ⟨hearlier, hlater,
    expiry_is_monotone.1 _ _ _ _ _ _ _ (leapPod_counts _) (leapPod_counts _) (by decide) hearlier hlater, hnever, hexpired,
    expiry_is_monotone.2.1 _ _ _ _ hexpired (by decide),
    (expiry_is_monotone.2.2 _ _ _ _ hraises hexpired).resolve_left ?_⟩
  rintro ⟨due, -, hdue⟩
  rw [hnever] at hdue
  cases hdue

end Tenure

end Reaper
