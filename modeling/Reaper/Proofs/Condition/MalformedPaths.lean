import Reaper.Condition

/-!
# Malformed paths in specifications

A path that cannot be read leads nowhere. No field that is selected by such a path has the text asked for, and no
condition on it holds, with one exception: an existence check that is turned around holds of every resource. So a
malformed path keeps a specification from covering anything unless it stands in such a check, and there it is as if the
check were not made (`PolicySpec.covers_eq_false_iff`).
-/

namespace Reaper

variable {doc : Json}

/-- The text cannot be read as a path. -/
def Path.isMalformed (raw : String) : Bool :=
  match parse raw with
  | .ok _ => false
  | .error _ => true

theorem Path.lookup?_of_isMalformed {raw : String} (h : isMalformed raw = true) : lookup? doc raw = none := by
  unfold isMalformed at h
  unfold lookup?
  cases hparse : parse raw with
  | ok p => simp [hparse] at h
  | error e => rfl

/-! ## Selected fields -/

namespace FieldSelector

/-- The entries with malformed paths. -/
def malformed (s : FieldSelector) : List (String × String) := s.entries.filter fun e => Path.isMalformed e.1

/-- The selector without its malformed paths. -/
def readable (s : FieldSelector) : FieldSelector := s.filter fun path _ => !Path.isMalformed path

theorem holds_eq (s : FieldSelector) : s.holds doc = (s.malformed.isEmpty && s.readable.holds doc) := by
  unfold holds malformed readable Dictionary.filter
  dsimp only
  induction s.entries with
  | nil => rfl
  | cons e rest ih =>
    rw [List.all_cons, ih]
    cases he : Path.isMalformed e.1 with
    | false => simp [he, Bool.and_left_comm]
    | true => simp [he, Path.lookup?_of_isMalformed he]

end FieldSelector

namespace TargetResource

/-- The fields that are selected by malformed paths. -/
def malformed (t : TargetResource) : List (String × String) := (t.fieldSelector.map FieldSelector.malformed).getD []

/-- The target without the malformed paths of its selector. -/
def readable (t : TargetResource) : TargetResource :=
  { t with fieldSelector := t.fieldSelector.map FieldSelector.readable }

theorem selects_eq (t : TargetResource) (scope : Option String) (r : Resource) :
    t.selects scope r doc = (t.malformed.isEmpty && t.readable.selects scope r doc) := by
  unfold selects malformed readable
  cases t.fieldSelector with
  | none => simp
  | some s => simp [s.holds_eq, Bool.and_left_comm]

end TargetResource

/-! ## Conditions on fields -/

/-- An existence check that is turned around. -/
def FieldCondition.isAbsenceCheck (c : FieldCondition) : Bool := c.operator == .exists && isNegated c.value

/-- On a malformed path, an absence check is all that holds. -/
theorem FieldCondition.holds_of_isMalformed {c : FieldCondition} (h : Path.isMalformed c.fieldPath = true) :
    c.holds doc = c.isAbsenceCheck := by
  rw [holds, Path.lookup?_of_isMalformed h, isAbsenceCheck]
  cases c.operator with
  | «exists» => cases isNegated c.value <;> rfl
  | _ => rfl

namespace ConditionSet

/-- The conditions on fields with malformed paths. -/
def malformed (c : ConditionSet) : List FieldCondition := c.fields.filter fun f => Path.isMalformed f.fieldPath

/-- The conditions without those on malformed paths. -/
def readable (c : ConditionSet) : ConditionSet :=
  { c with fields := c.fields.filter fun f => !Path.isMalformed f.fieldPath }

theorem all_fields_eq (c : ConditionSet) :
    c.fields.all (·.holds doc) = (c.malformed.all (·.isAbsenceCheck) && c.readable.fields.all (·.holds doc)) := by
  unfold malformed readable
  dsimp only
  induction c.fields with
  | nil => rfl
  | cons f rest ih =>
    rw [List.all_cons, ih]
    cases hf : Path.isMalformed f.fieldPath with
    | false => simp [hf, Bool.and_left_comm]
    | true => simp [hf, FieldCondition.holds_of_isMalformed hf, Bool.and_assoc]

theorem holds_eq (c : ConditionSet) (r : Resource) :
    c.holds r doc = (c.malformed.all (·.isAbsenceCheck) && c.readable.holds r doc) := by
  rw [holds, all_fields_eq, Bool.and_left_comm]
  rfl

end ConditionSet

/-! ## Specifications -/

namespace PolicySpec

/-- The conditions on fields with malformed paths. -/
def malformed (s : PolicySpec) : List FieldCondition := (s.conditions.map ConditionSet.malformed).getD []

/-- The specification without its malformed paths. -/
def readable (s : PolicySpec) : PolicySpec :=
  { s with targetResource := s.targetResource.readable, conditions := s.conditions.map ConditionSet.readable }

theorem conditionsHold_eq (s : PolicySpec) (r : Resource) :
    s.conditionsHold r doc = (s.malformed.all (·.isAbsenceCheck) && s.readable.conditionsHold r doc) := by
  unfold conditionsHold malformed readable
  cases s.conditions with
  | none => rfl
  | some c => exact c.holds_eq r

/-- A specification does not cover a resource if it selects a field by a malformed path, or has a condition on one that
is no absence check, or would not cover the resource without its malformed paths. Else it covers it. -/
theorem covers_eq_false_iff (s : PolicySpec) (scope : Option String) (r : Resource) (doc : Json) :
    s.covers scope r doc = false ↔
      s.targetResource.malformed ≠ [] ∨ (∃ c ∈ s.malformed, c.isAbsenceCheck = false) ∨
        s.readable.covers scope r doc = false := by
  have hcovers : s.covers scope r doc =
      (s.targetResource.malformed.isEmpty && (s.malformed.all (·.isAbsenceCheck) && s.readable.covers scope r doc)) := by
    rw [covers, TargetResource.selects_eq, conditionsHold_eq, Bool.and_assoc, Bool.and_left_comm _ (s.malformed.all _)]
    rfl
  rw [hcovers, Bool.and_eq_false_iff, Bool.and_eq_false_iff, List.isEmpty_eq_false_iff, List.all_eq_false]
  simp only [Bool.not_eq_true]

end PolicySpec

/-! A misspelled path in an absence check. -/

/-- For pods without a phase, with a dot too many in the path. -/
def misspelled : PolicySpec where
  targetResource := { apiVersion := "v1", kind := "Pod" }
  ttl := {}
  conditions := some { fields := [⟨"status..phase", .exists, some "false", []⟩] }

def runningPod : Resource where
  metadata := { name := some "web-0", «namespace» := some "apps" }
  fields := [("status", .object [("phase", .string "Running")])]

/-- The check holds of a pod that has a phase. -/
theorem misspelled_covers_runningPod :
    misspelled.malformed ≠ [] ∧ Path.parse "status..phase" = .error (.emptyStep "status..phase") ∧
      misspelled.covers none runningPod runningPod.document = true :=
  ⟨by decide +kernel, rfl, by decide +kernel⟩

end Reaper
