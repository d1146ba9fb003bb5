import Reaper.Proofs.Time.Proper
import Reaper.Ttl

/-!
# The first mode decides

Of the modes of a rule the first that is configured decides, and no other one stands in for it. What each mode would
give on its own is said by `Gives`, one case per way to come by a base and a number of seconds; which mode is the first
is said by `Selects`. A resource has expired exactly when the sum of the two lies behind (`expires_by_first_mode`), and
it never expires when the first mode gives nothing, whatever the others would give.
-/

namespace Reaper

namespace TtlSpec

/-- The first mode that a rule has the field for: fixed, by field or mapped, relative. -/
inductive Selects (t : TtlSpec) : TtlMode → Prop
  | fixed : t.secondsAfterCreation ≠ none → Selects t .fixed
  | fieldPath : t.secondsAfterCreation = none → t.fieldPath ≠ none → t.mappings = none → Selects t .fieldPath
  | mapped : t.secondsAfterCreation = none → t.fieldPath ≠ none → t.mappings ≠ none → Selects t .mapped
  | relative : t.secondsAfterCreation = none → t.fieldPath = none → t.relativeTo ≠ none → Selects t .relative

theorem of?_eq_some_iff {t : TtlSpec} {mode : TtlMode} : TtlMode.of? t = some mode ↔ t.Selects mode := by
  unfold TtlMode.of?
  simp only [Option.isSome_iff_ne_none]
  constructor
  · intro h
    split at h
    · cases h
      exact .fixed ‹_›
    · rename_i hfixed
      have hfixed := Classical.not_not.mp hfixed
      split at h
      · split at h
        · cases h
          exact .mapped hfixed ‹_› ‹_›
        · rename_i hmappings
          cases h
          exact .fieldPath hfixed ‹_› (Classical.not_not.mp hmappings)
      · rename_i hfield
        split at h
        · cases h
          exact .relative hfixed (Classical.not_not.mp hfield) ‹_›
        · simp at h
  · intro h
    cases h <;> simp [*]

/-- In the mapped mode the text in the field has a number of its own, or takes the default. -/
theorem seconds?_mapped_iff {t : TtlSpec} {doc : Json} {s : Int} : t.seconds? doc .mapped = some s ↔
    ∃ path, t.fieldPath = some path ∧ ∃ v, Path.lookup? doc path = some v ∧ ∃ text, v.asText? = some text ∧
      (t.mappings.bind (·.get? text)).or t.default = some s := by
  simp only [seconds?, mappedSeconds?, Option.bind_eq_bind, Option.bind_eq_some_iff]

end TtlSpec

/-- The fields of a rule that its mode looks at, and no others. -/
def TtlMode.ownFields (t : TtlSpec) : TtlMode → TtlSpec
  | fixed => { secondsAfterCreation := t.secondsAfterCreation }
  | fieldPath => { fieldPath := t.fieldPath }
  | mapped => { fieldPath := t.fieldPath, mappings := t.mappings, default := t.default }
  | relative => { relativeTo := t.relativeTo, secondsAfter := t.secondsAfter }

/-- A resource under a rule, with the document that the paths of the rule lead into. -/
structure Tenure where
  rule : TtlSpec
  resource : Resource
  document : Json
  hasProperTime : resource.HasProperTime

namespace Tenure

variable {x : Tenure} {mode : TtlMode} {base due now : Instant} {s : Int}

/-- A resource that has been read, under a rule, with its own document. -/
def ofRead (rule : TtlSpec) {j : Json} {r : Resource} (h : Resource.decode? j = some r) : Tenure where
  rule := rule
  resource := r
  document := r.document
  hasProperTime := Resource.hasProperTime_of_decode? h

/-- What the rule says of the resource at an instant. -/
def check (x : Tenure) (now : Instant) : Expiry := x.rule.check x.resource x.document now

/-- The instant at which the resource expires. -/
def expiration? (x : Tenure) : Option Instant := x.rule.expiration? x.resource x.document

/-- A written path leads to a value that is not null. -/
def Finds (x : Tenure) (path : String) (v : Json) : Prop :=
  ∃ p, Path.parse path = .ok p ∧ Path.follow? p.steps x.document = some v ∧ v.isNull = false

/-- What a mode gives on its own: the instant to count from, and the seconds to count. -/
inductive Gives (x : Tenure) : TtlMode → Instant → Int → Prop
  | fixed {base : Instant} {s : Int} (hseconds : x.rule.secondsAfterCreation = some s)
      (hbase : x.resource.metadata.creationTimestamp = some base) : Gives x .fixed base s
  | fieldPath {path : String} {v : Json} {base : Instant} {s : Int} (hpath : x.rule.fieldPath = some path)
      (hfinds : x.Finds path v) (hseconds : v.asInt? = some s)
      (hbase : x.resource.metadata.creationTimestamp = some base) : Gives x .fieldPath base s
  | mapping {path : String} {v : Json} {text : String} {mappings : Dictionary Int} {base : Instant} {s : Int}
      (hpath : x.rule.fieldPath = some path) (hfinds : x.Finds path v) (htext : v.asText? = some text)
      (hmappings : x.rule.mappings = some mappings) (hseconds : mappings.get? text = some s)
      (hbase : x.resource.metadata.creationTimestamp = some base) : Gives x .mapped base s
  | default {path : String} {v : Json} {text : String} {base : Instant} {s : Int} (hpath : x.rule.fieldPath = some path)
      (hfinds : x.Finds path v) (htext : v.asText? = some text)
      (hunmapped : ∀ mappings, x.rule.mappings = some mappings → mappings.get? text = none)
      (hseconds : x.rule.default = some s) (hbase : x.resource.metadata.creationTimestamp = some base) :
      Gives x .mapped base s
  | relative {path : String} {v : Json} {base : Instant} (hpath : x.rule.relativeTo = some path)
      (hfinds : x.Finds path v) (hbase : v.asInstant? = some base) : Gives x .relative base (x.rule.secondsAfter.getD 0)

theorem lookup?_eq_some_iff {path : String} {v : Json} : Path.lookup? x.document path = some v ↔ x.Finds path v := by
  unfold Path.lookup? Finds
  cases Path.parse path with
  | error e => simp
  | ok p => simp [Path.resolve?, Option.filter_eq_some_iff]

/-- What a mode gives is an instant and a number of seconds that the rule finds in that mode. -/
theorem gives_iff :
    x.Gives mode base s ↔
      x.rule.base? x.resource x.document mode = some base ∧ x.rule.seconds? x.document mode = some s := by
  constructor
  · rintro (⟨hseconds, hbase⟩ | ⟨hpath, hfinds, hseconds, hbase⟩ | ⟨hpath, hfinds, htext, hmappings, hseconds, hbase⟩ |
      ⟨hpath, hfinds, htext, hunmapped, hseconds, hbase⟩ | ⟨hpath, hfinds, hbase⟩)
    · exact ⟨hbase, hseconds⟩
    · rw [← lookup?_eq_some_iff] at hfinds
      exact ⟨hbase, by simp [TtlSpec.seconds?, hpath, hfinds, hseconds]⟩
    · rw [← lookup?_eq_some_iff] at hfinds
      exact ⟨hbase, TtlSpec.seconds?_mapped_iff.mpr ⟨_, hpath, _, hfinds, _, htext, by simp [hmappings, hseconds]⟩⟩
    · rw [← lookup?_eq_some_iff] at hfinds
      have hnone : x.rule.mappings.bind (·.get? _) = none := Option.bind_eq_none_iff.mpr hunmapped
      exact ⟨hbase, TtlSpec.seconds?_mapped_iff.mpr ⟨_, hpath, _, hfinds, _, htext, by simp [hnone, hseconds]⟩⟩
    · rw [← lookup?_eq_some_iff] at hfinds
      exact ⟨by simp [TtlSpec.base?, hpath, hfinds, hbase], rfl⟩
  · rintro ⟨hbase, hseconds⟩
    cases mode with
    | fixed => exact .fixed hseconds hbase
    | fieldPath =>
      obtain ⟨path, hpath, h⟩ := Option.bind_eq_some_iff.mp hseconds
      obtain ⟨v, hv, hint⟩ := Option.bind_eq_some_iff.mp h
      exact .fieldPath hpath (lookup?_eq_some_iff.mp hv) hint hbase
    | mapped =>
      obtain ⟨path, hpath, v, hv, text, htext, h⟩ := TtlSpec.seconds?_mapped_iff.mp hseconds
      rcases Option.or_eq_some_iff.mp h with h | ⟨hnone, hdefault⟩
      · obtain ⟨mappings, hmappings, hmapped⟩ := Option.bind_eq_some_iff.mp h
        exact .mapping hpath (lookup?_eq_some_iff.mp hv) htext hmappings hmapped hbase
      · exact .default hpath (lookup?_eq_some_iff.mp hv) htext (Option.bind_eq_none_iff.mp hnone) hdefault hbase
    | relative =>
      obtain ⟨path, hpath, h⟩ := Option.bind_eq_some_iff.mp hbase
      obtain ⟨v, hv, hinstant⟩ := Option.bind_eq_some_iff.mp h
      cases hseconds
      exact .relative hpath (lookup?_eq_some_iff.mp hv) hinstant

theorem Gives.isProper (h : x.Gives mode base s) : base.IsProper := by
  cases h with
  | fixed _ hbase => exact x.hasProperTime base hbase
  | fieldPath _ _ _ hbase => exact x.hasProperTime base hbase
  | mapping _ _ _ _ _ hbase => exact x.hasProperTime base hbase
  | default _ _ _ _ _ hbase => exact x.hasProperTime base hbase
  | relative _ _ hbase => exact Json.isProper_asInstant? hbase

/-- The rule counts so many seconds from an instant: its first mode gives them. -/
def Counts (x : Tenure) (base : Instant) (s : Int) : Prop := ∃ mode, x.rule.Selects mode ∧ x.Gives mode base s

theorem Counts.isProper (h : x.Counts base s) : base.IsProper := by
  obtain ⟨mode, -, hgives⟩ := h
  exact hgives.isProper

/-- A rule counts from one instant, and one number of seconds. -/
theorem Counts.unique {base' : Instant} {s' : Int} (h : x.Counts base s) (h' : x.Counts base' s') :
    base = base' ∧ s = s' := by
  obtain ⟨mode, hselects, hgives⟩ := h
  obtain ⟨mode', hselects', hgives'⟩ := h'
  rw [← TtlSpec.of?_eq_some_iff] at hselects hselects'
  rw [gives_iff] at hgives hgives'
  obtain rfl : mode = mode' := by simpa [hselects] using hselects'
  exact ⟨by simpa [hgives.1] using hgives'.1, by simpa [hgives.2] using hgives'.2⟩

/-- The instant of expiration is the sum of what the rule counts. -/
theorem expiration?_eq_some_iff : x.expiration? = some due ↔ ∃ base s, x.Counts base s ∧ base.IsSum s due := by
  simp only [expiration?, TtlSpec.expiration?, Option.bind_eq_bind, Option.bind_eq_some_iff]
  constructor
  · rintro ⟨mode, hmode, base, hbase, s, hs, hsum⟩
    have hgives : x.Gives mode base s := gives_iff.mpr ⟨hbase, hs⟩
    exact ⟨base, s, ⟨mode, TtlSpec.of?_eq_some_iff.mp hmode, hgives⟩,
      (Instant.addSeconds?_eq_some_iff hgives.isProper).mp hsum⟩
  · rintro ⟨base, s, ⟨mode, hselects, hgives⟩, hsum⟩
    obtain ⟨hbase, hs⟩ := gives_iff.mp hgives
    exact ⟨mode, TtlSpec.of?_eq_some_iff.mpr hselects, base, hbase, s, hs,
      (Instant.addSeconds?_eq_some_iff hgives.isProper).mpr hsum⟩

theorem check_eq_expired_iff : x.check now = .expired due ↔ x.expiration? = some due ∧ due ≤ now := by
  unfold check TtlSpec.check expiration?
  cases x.rule.expiration? x.resource x.document with
  | none => simp
  | some t =>
    simp only [Option.some.injEq]
    split <;> simp <;> grind

theorem check_eq_pending_iff : x.check now = .pending due ↔ x.expiration? = some due ∧ ¬ due ≤ now := by
  unfold check TtlSpec.check expiration?
  cases x.rule.expiration? x.resource x.document with
  | none => simp
  | some t =>
    simp only [Option.some.injEq]
    split <;> simp <;> grind

theorem check_eq_noTtl_iff : x.check now = .noTtl ↔ x.expiration? = none := by
  unfold check TtlSpec.check expiration?
  cases x.rule.expiration? x.resource x.document with
  | none => simp
  | some t =>
    simp only [reduceCtorEq, iff_false]
    split <;> simp

end Tenure

/-- The other fields of a rule have no part in what it says. -/
theorem TtlSpec.check_ownFields {t : TtlSpec} {mode : TtlMode} (h : t.Selects mode) (r : Resource) (doc : Json)
    (now : Instant) : (mode.ownFields t).check r doc now = t.check r doc now := by
  have hmode : TtlMode.of? (mode.ownFields t) = some mode := by
    refine of?_eq_some_iff.mpr ?_
    cases h with
    | fixed hfixed => exact .fixed hfixed
    | fieldPath _ hfield _ => exact .fieldPath rfl hfield rfl
    | mapped _ hfield hmappings => exact .mapped rfl hfield hmappings
    | relative _ _ hrelative => exact .relative rfl rfl hrelative
  have hbase : (mode.ownFields t).base? r doc mode = t.base? r doc mode := by cases mode <;> rfl
  have hseconds : (mode.ownFields t).seconds? doc mode = t.seconds? doc mode := by cases mode <;> rfl
  have hexpiration : (mode.ownFields t).expiration? r doc = t.expiration? r doc := by
    simp only [expiration?, hmode, of?_eq_some_iff.mpr h, Option.bind_eq_bind, Option.bind_some, hbase, hseconds]
  rw [check, hexpiration, check]

/-- A resource has expired, or is to expire, at the sum of the instant and the seconds that the first mode gives, and at
no other instant. It does not expire if there is no such sum, whatever the other modes give. The fields that are not
those of the mode have no part in this. -/
theorem Tenure.expires_by_first_mode :
    (∀ (x : Tenure) (now due : Instant),
      (x.check now = .expired due ↔ due ≤ now ∧ ∃ base s, x.Counts base s ∧ base.IsSum s due) ∧
      (x.check now = .pending due ↔ ¬ due ≤ now ∧ ∃ base s, x.Counts base s ∧ base.IsSum s due)) ∧
    (∀ (x : Tenure) (now : Instant), x.check now = .noTtl ↔
      ∀ mode base s due, x.rule.Selects mode → x.Gives mode base s → ¬ base.IsSum s due) ∧
    ∀ (t u : TtlSpec) (mode : TtlMode), t.Selects mode → u.Selects mode → mode.ownFields t = mode.ownFields u →
      ∀ r doc now, t.check r doc now = u.check r doc now := by
  refine ⟨fun x now due => ⟨?_, ?_⟩, fun x now => ?_, fun t u mode ht hu hsame r doc now => ?_⟩
  · rw [check_eq_expired_iff, expiration?_eq_some_iff, and_comm]
  · rw [check_eq_pending_iff, expiration?_eq_some_iff, and_comm]
  · rw [check_eq_noTtl_iff, Option.eq_none_iff_forall_ne_some]
    simp only [ne_eq, expiration?_eq_some_iff]
    constructor
    · intro h mode base s due hselects hgives hsum
      exact h due ⟨base, s, ⟨mode, hselects, hgives⟩, hsum⟩
    · rintro h due ⟨base, s, ⟨mode, hselects, hgives⟩, hsum⟩
      exact h mode base s due hselects hgives hsum
  · rw [← TtlSpec.check_ownFields ht, hsame, TtlSpec.check_ownFields hu]

namespace Tenure

/-- The rule counts from the creation, of which the resource says nothing; its start would do for another mode. -/
def startedPod : Tenure :=
  .ofRead { secondsAfterCreation := some 0, relativeTo := some ".status.startTime" }
    (j := .object [("status", .object [("startTime", .string "2025-01-01T00:00:00Z")])])
    (r := { fields := [("status", .object [("startTime", .string "2025-01-01T00:00:00Z")])] }) rfl

/-- The relative mode would give an instant that lies behind, and the resource does not expire. Nothing changes when that
mode is not configured. -/
theorem noTtl_startedPod :
    startedPod.Gives .relative ⟨1735689600, 0⟩ 0 ∧ Instant.IsSum ⟨1735689600, 0⟩ 0 ⟨1735689600, 0⟩ ∧
      (⟨1735689600, 0⟩ : Instant) ≤ ⟨1800000000, 0⟩ ∧ startedPod.check ⟨1800000000, 0⟩ = .noTtl ∧
      ({ startedPod with rule := { secondsAfterCreation := some 0 } } : Tenure).check ⟨1800000000, 0⟩ = .noTtl := by
  have hfixed : startedPod.rule.Selects .fixed := .fixed (by simp [startedPod, ofRead])
  have hnone : startedPod.check ⟨1800000000, 0⟩ = .noTtl := by
    refine (expires_by_first_mode.2.1 startedPod _).mpr ?_
    rintro mode base s due hselects hgives
    obtain rfl : mode = .fixed :=
      Option.some.inj ((TtlSpec.of?_eq_some_iff.mpr hselects).symm.trans (TtlSpec.of?_eq_some_iff.mpr hfixed))
    cases hgives with
    | fixed _ hbase => simp [startedPod, ofRead] at hbase
  refine ⟨gives_iff.mpr (by decide +kernel), (Instant.addSeconds?_eq_some_iff (by decide +kernel)).mp (by decide +kernel),
    by decide, hnone, ?_⟩
  rw [← hnone]
  exact expires_by_first_mode.2.2 { secondsAfterCreation := some 0 } startedPod.rule .fixed (.fixed (by simp)) hfixed rfl
    startedPod.resource startedPod.document ⟨1800000000, 0⟩

end Tenure

end Reaper
