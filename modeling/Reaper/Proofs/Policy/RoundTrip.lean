import Mathlib.Algebra.Group.Nat.Defs
import Mathlib.Algebra.Ring.Int.Defs
import Reaper.Policy.Wire
import Reaper.Proofs.Json.RoundTrip

/-!
Policies, written and read back.

Every record of a policy is read back from what is written, whatever of its fields is present, absent or empty, as long
as its numbers are in the ranges of their fields; and the decoders read no others (`wire_round_trips`). What is optional
and there is written, even if it is empty, so that reading finds it again.

  §1 Selectors and conditions — records of texts, which are always in range.
  §2 Rules and manners        — records with numbers.
  §3 Policies                 — specifications and statuses.
  §4 Presence                 — whether an optional part of a record is there.
-/

namespace Reaper

open Json (Faithful faithful_text faithful_texts faithful_truth faithful_choice record_of_eq_ofPresent)

/-! ## §1 Selectors and conditions -/

/-- A list that is left out when it is empty. -/
theorem Json.Faithful.items? {α : Type} {encode : α → Json} {decode? : Json.Decoder α} {InRange : α → Prop} {j : Json}
    {key : String} (h : Faithful encode decode? InRange) {xs : List α} (hget : j.get? key = Json.ofNonempty encode xs)
    (hxs : ∀ x ∈ xs, InRange x) : j.defaulted? key [] (Json.list? decode?) = some xs :=
  h.list.defaulted?_of_ite List.isEmpty_iff.mp hget hxs

namespace LabelRequirement

theorem faithful_operator :
    Faithful (fun o : LabelOperator => .string o.text) (Json.choice? LabelOperator.choices) fun _ => True :=
  faithful_choice fun o => by cases o <;> rfl

theorem faithful : Faithful encode decode? fun _ => True where
  reads {q} _ := by
    obtain ⟨hrecord, hget⟩ := record_of_eq_ofPresent (j := q.encode) rfl (by simp)
    simp only [List.forall_mem_cons] at hget
    obtain ⟨hkey, hoperator, hvalues, -⟩ := hget
    unfold decode?
    simp only [hrecord, Option.bind_eq_bind, Option.bind_some, faithful_text.required? hkey trivial,
      faithful_operator.required? hoperator trivial, faithful_text.items? hvalues fun _ _ => trivial]
  inRange _ := trivial
  ne_null _ := nofun

end LabelRequirement

namespace LabelSelector

theorem faithful : Faithful encode decode? fun _ => True where
  reads {s} _ := by
    obtain ⟨hrecord, hget⟩ := record_of_eq_ofPresent (j := s.encode) rfl (by simp)
    simp only [List.forall_mem_cons] at hget
    obtain ⟨hlabels, hexpressions, -⟩ := hget
    have hempty (h : s.matchLabels.isEmpty = true) : s.matchLabels = ∅ := Dictionary.ext (List.isEmpty_iff.mp h)
    unfold decode?
    simp only [hrecord, Option.bind_eq_bind, Option.bind_some, faithful_texts.defaulted?_of_ite hempty hlabels trivial,
      LabelRequirement.faithful.items? hexpressions fun _ _ => trivial]
  inRange _ := trivial
  ne_null _ := nofun

end LabelSelector

namespace TargetResource

theorem faithful : Faithful encode decode? fun _ => True where
  reads {t} _ := by
    obtain ⟨hrecord, hget⟩ := record_of_eq_ofPresent (j := t.encode) rfl (by simp)
    simp only [List.forall_mem_cons] at hget
    obtain ⟨hversion, hkind, hresource, hnamespace, hlabels, hfields, -⟩ := hget
    unfold decode?
    simp only [hrecord, Option.bind_eq_bind, Option.bind_some, faithful_text.required? hversion trivial,
      faithful_text.required? hkind trivial, faithful_text.optional? hresource fun _ _ => trivial,
      faithful_text.optional? hnamespace fun _ _ => trivial,
      LabelSelector.faithful.optional? hlabels fun _ _ => trivial,
      faithful_texts.optional? hfields fun _ _ => trivial]
  inRange _ := trivial
  ne_null _ := nofun

end TargetResource

namespace MetadataCondition

theorem faithful_operator :
    Faithful (fun o : MetadataOperator => .string o.text) (Json.choice? operators) fun _ => True :=
  faithful_choice fun o => by cases o <;> rfl

theorem faithful : Faithful encode decode? fun _ => True where
  reads {c} _ := by
    obtain ⟨hrecord, hget⟩ := record_of_eq_ofPresent (j := c.encode) rfl (by simp)
    simp only [List.forall_mem_cons] at hget
    obtain ⟨hkey, hoperator, hvalue, hvalues, -⟩ := hget
    unfold decode?
    simp only [hrecord, Option.bind_eq_bind, Option.bind_some, faithful_text.required? hkey trivial,
      faithful_operator.required? hoperator trivial, faithful_text.optional? hvalue fun _ _ => trivial,
      faithful_text.items? hvalues fun _ _ => trivial]
  inRange _ := trivial
  ne_null _ := nofun

end MetadataCondition

namespace FieldCondition

theorem faithful_operator :
    Faithful (fun o : FieldOperator => .string o.text) (Json.choice? operators) fun _ => True :=
  faithful_choice fun o => by cases o <;> rfl

theorem faithful : Faithful encode decode? fun _ => True where
  reads {c} _ := by
    obtain ⟨hrecord, hget⟩ := record_of_eq_ofPresent (j := c.encode) rfl (by simp)
    simp only [List.forall_mem_cons] at hget
    obtain ⟨hpath, hoperator, hvalue, hvalues, -⟩ := hget
    unfold decode?
    simp only [hrecord, Option.bind_eq_bind, Option.bind_some, faithful_text.required? hpath trivial,
      faithful_operator.required? hoperator trivial, faithful_text.optional? hvalue fun _ _ => trivial,
      faithful_text.items? hvalues fun _ _ => trivial]
  inRange _ := trivial
  ne_null _ := nofun

end FieldCondition

namespace ConditionSet

theorem faithful : Faithful encode decode? fun _ => True where
  reads {c} _ := by
    obtain ⟨hrecord, hget⟩ := record_of_eq_ofPresent (j := c.encode) rfl (by simp)
    simp only [List.forall_mem_cons] at hget
    obtain ⟨hphase, hlabels, hannotations, hfields, -⟩ := hget
    unfold decode?
    simp only [hrecord, Option.bind_eq_bind, Option.bind_some, faithful_text.items? hphase fun _ _ => trivial,
      MetadataCondition.faithful.items? hlabels fun _ _ => trivial,
      MetadataCondition.faithful.items? hannotations fun _ _ => trivial,
      FieldCondition.faithful.items? hfields fun _ _ => trivial]
  inRange _ := trivial
  ne_null _ := nofun

end ConditionSet

/-! ## §2 Rules and manners -/

/-- The number fits into 32 bits with a sign. -/
def IsInt32 (n : Int) : Prop := -2 ^ 31 ≤ n ∧ n < 2 ^ 31

/-- The number fits into 64 bits with a sign. -/
def IsInt64 (n : Int) : Prop := -2 ^ 63 ≤ n ∧ n < 2 ^ 63

theorem Json.faithful_int32 : Faithful .int int32? IsInt32 := by
  refine (faithful_whole _ _).congr fun n => ?_
  unfold IsInt32 int32Limits
  omega

theorem Json.faithful_int64 : Faithful .int int64? IsInt64 := by
  refine (faithful_whole _ _).congr fun n => ?_
  unfold IsInt64
  omega

theorem Json.faithful_nat32 : Faithful ofNat nat32? fun n => n < 2 ^ 32 := by
  refine (faithful_natural _).congr fun n => ?_
  unfold UInt32.size
  omega

theorem Json.faithful_nat64 : Faithful ofNat nat64? fun n => n < 2 ^ 64 := by
  refine (faithful_natural _).congr fun n => ?_
  unfold UInt64.size
  omega

open Json (faithful_int32 faithful_int64 faithful_nat32 faithful_nat64 inRange_of_optional? inRange_of_defaulted?
  inRange_of_required?)

namespace TtlSpec

/-- All numbers of the rule fit into their fields. -/
structure InRange (t : TtlSpec) : Prop where
  secondsAfterCreation : ∀ n ∈ t.secondsAfterCreation, IsInt64 n
  mappings : ∀ m ∈ t.mappings, ∀ e ∈ m.entries, IsInt64 e.2
  default : ∀ n ∈ t.default, IsInt64 n
  secondsAfter : ∀ n ∈ t.secondsAfter, IsInt64 n

theorem faithful : Faithful encode decode? InRange where
  reads {t} h := by
    obtain ⟨hrecord, hget⟩ := record_of_eq_ofPresent (j := t.encode) rfl (by simp)
    simp only [List.forall_mem_cons] at hget
    obtain ⟨hfixed, hpath, hmappings, hdefault, hrelative, hafter, -⟩ := hget
    unfold decode?
    simp only [hrecord, Option.bind_eq_bind, Option.bind_some, faithful_int64.optional? hfixed h.secondsAfterCreation,
      faithful_text.optional? hpath fun _ _ => trivial, faithful_int64.dictionary.optional? hmappings h.mappings,
      faithful_int64.optional? hdefault h.default, faithful_text.optional? hrelative fun _ _ => trivial,
      faithful_int64.optional? hafter h.secondsAfter]
  inRange {j t} hj := by
    unfold decode? at hj
    simp only [Option.bind_eq_bind, Option.bind_eq_some_iff, Option.some.injEq] at hj
    obtain ⟨r, -, fixed, hfixed, path, -, mappings, hmappings, fallback, hfallback, relative, -, after, hafter, rfl⟩ :=
      hj
    exact
      { secondsAfterCreation := inRange_of_optional? faithful_int64 hfixed
        mappings := inRange_of_optional? faithful_int64.dictionary hmappings
        default := inRange_of_optional? faithful_int64 hfallback
        secondsAfter := inRange_of_optional? faithful_int64 hafter }
  ne_null _ := nofun

end TtlSpec

namespace Behavior

/-- All numbers of the manner of deletion fit into their fields. -/
structure InRange (b : Behavior) : Prop where
  maxDeletionsPerSecond : ∀ n ∈ b.maxDeletionsPerSecond, IsInt32 n
  batchSize : ∀ n ∈ b.batchSize, IsInt32 n
  gracePeriodSeconds : ∀ n ∈ b.gracePeriodSeconds, n < 2 ^ 32

theorem inRange_default : ({} : Behavior).InRange := ⟨nofun, nofun, nofun⟩

theorem faithful_propagation :
    Faithful (fun p : Propagation => .string p.text) (Json.choice? propagations) fun _ => True :=
  faithful_choice fun p => by cases p <;> rfl

theorem faithful : Faithful encode decode? InRange where
  reads {b} h := by
    obtain ⟨hrecord, hget⟩ := record_of_eq_ofPresent (j := b.encode) rfl (by simp)
    simp only [List.forall_mem_cons] at hget
    obtain ⟨hrate, hbatch, hdry, hpropagation, hgrace, -⟩ := hget
    unfold decode?
    simp only [hrecord, Option.bind_eq_bind, Option.bind_some, faithful_int32.optional? hrate h.maxDeletionsPerSecond,
      faithful_int32.optional? hbatch h.batchSize, faithful_truth.defaulted? false hdry trivial,
      faithful_propagation.defaulted? .background hpropagation trivial,
      faithful_nat32.optional? hgrace h.gracePeriodSeconds]
  inRange {j b} hj := by
    unfold decode? at hj
    simp only [Option.bind_eq_bind, Option.bind_eq_some_iff, Option.some.injEq] at hj
    obtain ⟨r, -, rate, hrate, batch, hbatch, dry, -, propagation, -, grace, hgrace, rfl⟩ := hj
    exact
      { maxDeletionsPerSecond := inRange_of_optional? faithful_int32 hrate
        batchSize := inRange_of_optional? faithful_int32 hbatch
        gracePeriodSeconds := inRange_of_optional? faithful_nat32 hgrace }
  ne_null _ := nofun

end Behavior

/-! ## §3 Policies -/

namespace PolicySpec

/-- All numbers of the specification fit into their fields. -/
structure InRange (s : PolicySpec) : Prop where
  ttl : s.ttl.InRange
  behavior : s.behavior.InRange

theorem faithful : Faithful encode decode? InRange where
  reads {s} h := by
    obtain ⟨hrecord, hget⟩ := record_of_eq_ofPresent (j := s.encode) rfl (by simp)
    simp only [List.forall_mem_cons] at hget
    obtain ⟨htarget, httl, hconditions, hbehavior, hpaused, -⟩ := hget
    unfold decode?
    simp only [hrecord, Option.bind_eq_bind, Option.bind_some, TargetResource.faithful.required? htarget trivial,
      TtlSpec.faithful.required? httl h.ttl, ConditionSet.faithful.optional? hconditions fun _ _ => trivial,
      Behavior.faithful.defaulted? {} hbehavior h.behavior, faithful_truth.defaulted? false hpaused trivial]
  inRange {j s} hj := by
    unfold decode? at hj
    simp only [Option.bind_eq_bind, Option.bind_eq_some_iff, Option.some.injEq] at hj
    obtain ⟨r, -, target, -, ttl, httl, conditions, -, behavior, hbehavior, paused, -, rfl⟩ := hj
    exact
      { ttl := inRange_of_required? TtlSpec.faithful httl
        behavior := inRange_of_defaulted? Behavior.faithful Behavior.inRange_default hbehavior }
  ne_null _ := nofun

end PolicySpec

namespace PolicyStatus

/-- All numbers of the status fit into their fields. -/
structure InRange (s : PolicyStatus) : Prop where
  resourcesMatched : s.resourcesMatched < 2 ^ 32
  resourcesDeleted : s.resourcesDeleted < 2 ^ 32
  resourcesPending : s.resourcesPending < 2 ^ 32
  totalDeleted : s.totalDeleted < 2 ^ 64
  observedGeneration : ∀ n ∈ s.observedGeneration, IsInt64 n

theorem faithful_phase : Faithful (fun p : PolicyPhase => .string p.text) (Json.choice? phases) fun _ => True :=
  faithful_choice fun p => by cases p <;> rfl

theorem faithful : Faithful encode decode? InRange where
  reads {s} h := by
    obtain ⟨hrecord, hget⟩ := record_of_eq_ofPresent (j := s.encode) rfl (by simp)
    simp only [List.forall_mem_cons] at hget
    obtain ⟨hphase, hmessage, hmatched, hdeleted, hpending, htotal, hlast, hnext, hgeneration, -⟩ := hget
    unfold decode?
    simp only [hrecord, Option.bind_eq_bind, Option.bind_some, faithful_phase.optional? hphase fun _ _ => trivial,
      faithful_text.optional? hmessage fun _ _ => trivial, faithful_nat32.defaulted? 0 hmatched h.resourcesMatched,
      faithful_nat32.defaulted? 0 hdeleted h.resourcesDeleted, faithful_nat32.defaulted? 0 hpending h.resourcesPending,
      faithful_nat64.defaulted? 0 htotal h.totalDeleted, faithful_text.optional? hlast fun _ _ => trivial,
      faithful_text.optional? hnext fun _ _ => trivial, faithful_int64.optional? hgeneration h.observedGeneration]
  inRange {j s} hj := by
    unfold decode? at hj
    simp only [Option.bind_eq_bind, Option.bind_eq_some_iff, Option.some.injEq] at hj
    obtain ⟨r, -, phase, -, message, -, matched, hmatched, deleted, hdeleted, pending, hpending, total, htotal, last, -,
      next, -, generation, hgeneration, rfl⟩ := hj
    have hzero {n : Nat} : 0 < 2 ^ n := Nat.two_pow_pos n
    exact
      { resourcesMatched := inRange_of_defaulted? faithful_nat32 hzero hmatched
        resourcesDeleted := inRange_of_defaulted? faithful_nat32 hzero hdeleted
        resourcesPending := inRange_of_defaulted? faithful_nat32 hzero hpending
        totalDeleted := inRange_of_defaulted? faithful_nat64 hzero htotal
        observedGeneration := inRange_of_optional? faithful_int64 hgeneration }
  ne_null _ := nofun

end PolicyStatus

/-! ## §4 Presence -/

/-- An object is read as a record as it is. -/
theorem Json.eq_of_record? {names : List String} {fields : List (String × Json)} {r : Json}
    (h : (object fields).record? names = some r) : r = object fields := by
  unfold record? recordFrom? at h
  dsimp only at h
  split at h
  · exact (Option.some.inj h).symm
  · cases h

/-- An optional part of a record is not lost: its field is written if and only if the part is there, and of any object
the part is read if and only if it has the field, with a value other than null. -/
def TellsPresence {α β : Type} (encode : α → Json) (decode? : Json.Decoder α) (InRange : α → Prop) (key : String)
    (part : α → Option β) : Prop :=
  (∀ a, InRange a → (part a).isSome = ((encode a).present? key).isSome) ∧
  ∀ fields a, decode? (.object fields) = some a → (part a).isSome = ((Json.object fields).present? key).isSome

/-- What is read of all objects is read of those that are written. -/
theorem Json.Faithful.tellsPresence {α β : Type} {encode : α → Json} {decode? : Json.Decoder α} {InRange : α → Prop}
    (h : Faithful encode decode? InRange) (hobject : ∀ a, ∃ fields, encode a = .object fields) {key : String}
    {part : α → Option β} (hread : ∀ fields a, decode? (.object fields) = some a →
      (part a).isSome = ((Json.object fields).present? key).isSome) :
    TellsPresence encode decode? InRange key part := by
  refine ⟨fun a ha => ?_, hread⟩
  obtain ⟨fields, hfields⟩ := hobject a
  rw [hfields]
  exact hread fields a (hfields ▸ h.reads ha)

theorem TargetResource.tellsPresence :
    TellsPresence encode decode? (fun _ => True) "labelSelector" (·.labelSelector) ∧
      TellsPresence encode decode? (fun _ => True) "fieldSelector" (·.fieldSelector) := by
  have hread (fields : List (String × Json)) (t : TargetResource) (h : decode? (.object fields) = some t) :
      t.labelSelector.isSome = ((Json.object fields).present? "labelSelector").isSome ∧
        t.fieldSelector.isSome = ((Json.object fields).present? "fieldSelector").isSome := by
    unfold decode? at h
    simp only [Option.bind_eq_bind, Option.bind_eq_some_iff, Option.some.injEq] at h
    obtain ⟨r, hr, _, -, _, -, _, -, _, -, labels, hlabels, selector, hselector, rfl⟩ := h
    obtain rfl := Json.eq_of_record? hr
    exact ⟨Json.isSome_of_optional? hlabels, Json.isSome_of_optional? hselector⟩
  exact ⟨faithful.tellsPresence (fun _ => ⟨_, rfl⟩) fun fields t h => (hread fields t h).1,
    faithful.tellsPresence (fun _ => ⟨_, rfl⟩) fun fields t h => (hread fields t h).2⟩

theorem TtlSpec.tellsPresence : TellsPresence encode decode? InRange "mappings" (·.mappings) := by
  refine faithful.tellsPresence (fun _ => ⟨_, rfl⟩) fun fields t h => ?_
  unfold decode? at h
  simp only [Option.bind_eq_bind, Option.bind_eq_some_iff, Option.some.injEq] at h
  obtain ⟨r, hr, _, -, _, -, mappings, hmappings, _, -, _, -, _, -, rfl⟩ := h
  obtain rfl := Json.eq_of_record? hr
  exact Json.isSome_of_optional? hmappings

theorem PolicySpec.tellsPresence : TellsPresence encode decode? InRange "conditions" (·.conditions) := by
  refine faithful.tellsPresence (fun _ => ⟨_, rfl⟩) fun fields s h => ?_
  unfold decode? at h
  simp only [Option.bind_eq_bind, Option.bind_eq_some_iff, Option.some.injEq] at h
  obtain ⟨r, hr, _, -, _, -, conditions, hconditions, _, -, _, -, rfl⟩ := h
  obtain rfl := Json.eq_of_record? hr
  exact Json.isSome_of_optional? hconditions

/-- Specifications and statuses are read back from what is written, and whatever is read is written the same when it is
read again. Whether a selector, the mappings or the conditions are there is written and read, even if they are empty. -/
theorem wire_round_trips :
    (∀ s : PolicySpec, s.InRange → PolicySpec.decode? s.encode = some s) ∧
    (∀ s : PolicyStatus, s.InRange → PolicyStatus.decode? s.encode = some s) ∧
    (∀ j s, PolicySpec.decode? j = some s →
      s.InRange ∧ (PolicySpec.decode? s.encode).map PolicySpec.encode = some s.encode) ∧
    (∀ j s, PolicyStatus.decode? j = some s →
      s.InRange ∧ (PolicyStatus.decode? s.encode).map PolicyStatus.encode = some s.encode) ∧
    (TellsPresence TargetResource.encode TargetResource.decode? (fun _ => True) "labelSelector" (·.labelSelector) ∧
      TellsPresence TargetResource.encode TargetResource.decode? (fun _ => True) "fieldSelector" (·.fieldSelector) ∧
      TellsPresence TtlSpec.encode TtlSpec.decode? TtlSpec.InRange "mappings" (·.mappings) ∧
      TellsPresence PolicySpec.encode PolicySpec.decode? PolicySpec.InRange "conditions" (·.conditions)) := by
  refine ⟨fun s hs => PolicySpec.faithful.reads hs, fun s hs => PolicyStatus.faithful.reads hs, fun j s hj => ?_,
    fun j s hj => ?_, TargetResource.tellsPresence.1, TargetResource.tellsPresence.2, TtlSpec.tellsPresence,
    PolicySpec.tellsPresence⟩
  · exact ⟨PolicySpec.faithful.inRange hj, by rw [PolicySpec.faithful.again hj, Option.map_some]⟩
  · exact ⟨PolicyStatus.faithful.inRange hj, by rw [PolicyStatus.faithful.again hj, Option.map_some]⟩

/-- A specification whose selectors, mappings and conditions are there but empty. -/
def hollowSpec : PolicySpec where
  targetResource := { apiVersion := "v1", kind := "Pod", labelSelector := some {}, fieldSelector := some ∅ }
  ttl := { fieldPath := some ".spec.class", mappings := some ∅, default := some (-2 ^ 63) }
  conditions := some {}

/-- The empty parts are written, and are there when the specification is read back. -/
theorem hollowSpec_round_trips :
    hollowSpec.InRange ∧ PolicySpec.decode? hollowSpec.encode = some hollowSpec ∧
      ((hollowSpec.encode.get? "conditions").map (·.typeName)) = some "object" ∧
      ((hollowSpec.encode.get? "ttl").bind (·.get? "mappings")).map (·.typeName) = some "object" := by
  have hrange : hollowSpec.InRange :=
    { ttl :=
        { secondsAfterCreation := nofun
          mappings := by
            rintro m ⟨⟩ e he
            exact nomatch he
          default := by
            rintro n ⟨⟩
            exact ⟨by decide, by decide⟩
          secondsAfter := nofun }
      behavior := Behavior.inRange_default }
  exact ⟨hrange, wire_round_trips.1 hollowSpec hrange, by decide, by decide⟩

end Reaper
