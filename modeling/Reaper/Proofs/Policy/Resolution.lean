import Mathlib.Data.List.TakeWhile
import Reaper.Policy.Target
import Reaper.Proofs.Text.Trim

/-!
# Problems and resolution

A policy's target is looked at twice: its problems are reported, and it is resolved to what is watched. Both look at
the kind and at the API version, cut at its first slash (`exists_targetProblem_iff`, `resolves_iff`). They differ in two
places: an API version that begins with its slash is no problem and does not resolve, and neither does a kind without a
plural. `problems_agree_with_resolution` says that there are no other differences, and that what is resolved carries the
API version and the kind as they are written.
-/

namespace Reaper

open Text (trim trimText isBlankText)

/-! ## The parts of an API version -/

theorem splitSlash_of_notMem {cs : List Char} (h : '/' ∉ cs) : splitSlash cs = (cs, none) := by
  have hall : ∀ c ∈ cs, (c != '/') = true := fun c hc => bne_iff_ne.mpr (ne_of_mem_of_not_mem hc h)
  rw [splitSlash, List.dropWhile_eq_nil_iff.mpr hall]

theorem splitSlash_append {group : List Char} (h : '/' ∉ group) (version : List Char) :
    splitSlash (group ++ '/' :: version) = (group, some version) := by
  have hall : ∀ c ∈ group, (c != '/') = true := fun c hc => bne_iff_ne.mpr (ne_of_mem_of_not_mem hc h)
  rw [splitSlash, List.dropWhile_append_of_pos hall, List.takeWhile_append_of_pos hall]
  simp

namespace TargetResource

variable {t : TargetResource}

/-- The API version has no slash and is the version, or the group stands before its first slash and the version after
it. -/
theorem groupVersion_cases (t : TargetResource) :
    '/' ∉ trim t.apiVersion.toList ∧ t.groupVersion = ("", trimText t.apiVersion) ∨
      ∃ group version, '/' ∉ group ∧ trim t.apiVersion.toList = group ++ '/' :: version ∧
        t.groupVersion = (String.ofList group, String.ofList version) := by
  by_cases h : '/' ∈ trim t.apiVersion.toList
  · obtain ⟨group, version, hparts, hgroup⟩ := List.eq_append_cons_of_mem h
    exact .inr ⟨group, version, hgroup, hparts, by rw [groupVersion, hparts, splitSlash_append hgroup]⟩
  · exact .inl ⟨h, by rw [groupVersion, splitSlash_of_notMem h, trimText]⟩

/-- The API version begins with its slash. -/
def HasEmptyGroup (t : TargetResource) : Prop := (trim t.apiVersion.toList).head? = some '/'

theorem hasEmptyGroup_iff : t.HasEmptyGroup ↔ t.groupVersion.1 = "" ∧ '/' ∈ t.apiVersion.toList := by
  have hslash : Text.isBlank '/' = false := by decide
  rw [← Text.mem_trim_iff hslash, HasEmptyGroup]
  obtain ⟨hno, -⟩ | ⟨group, version, hgroup, hparts, hsplit⟩ := t.groupVersion_cases
  · exact iff_of_false (fun h => hno (List.mem_of_head? h)) fun h => hno h.2
  · rw [hparts, hsplit]
    cases group with
    | nil => simp
    | cons c rest =>
      have hc : c ≠ '/' := fun h => hgroup (h ▸ List.mem_cons_self)
      simp [hc]

/-- The kind is named, and the version is a text without a slash. -/
structure IsNamed (t : TargetResource) : Prop where
  kind : isBlankText t.kind = false
  version_ne : t.groupVersion.2 ≠ ""
  version_noSlash : '/' ∉ t.groupVersion.2.toList

end TargetResource

/-! ## Problems with a target -/

@[simp, grind =] theorem mem_problemWhen_iff {test : Bool} {q r : PolicyProblem} :
    q ∈ problemWhen test r ↔ test = true ∧ q = r := by
  cases test <;> simp [problemWhen]

namespace TargetResource

variable {t : TargetResource} {q : PolicyProblem}

theorem version_of_isBlankText (h : isBlankText t.apiVersion = true) : t.groupVersion.2 = "" := by
  rw [isBlankText, List.isEmpty_iff] at h
  rw [groupVersion, h]
  rfl

theorem exists_mem_problems_iff : (∃ q, q ∈ t.problems) ↔ ¬ t.IsNamed := by
  have hnamed : t.IsNamed ↔
      isBlankText t.kind = false ∧ (t.groupVersion.2.isEmpty || t.groupVersion.2.contains '/') = false := by
    rw [Bool.or_eq_false_iff, String.contains_char_eq, decide_eq_false_iff_not, String.isEmpty_eq_false_iff]
    exact ⟨fun h => ⟨h.kind, h.version_ne, h.version_noSlash⟩, fun h => ⟨h.1, h.2.1, h.2.2⟩⟩
  rw [hnamed, problems]
  cases hblank : isBlankText t.apiVersion with
  | false =>
    cases isBlankText t.kind <;> cases (t.groupVersion.2.isEmpty || t.groupVersion.2.contains '/') <;> simp
  | true => simp [version_of_isBlankText hblank]

theorem isAboutTarget_of_mem (h : q ∈ t.problems) : q.isAboutTarget = true := by
  unfold problems at h
  grind [PolicyProblem.isAboutTarget]

end TargetResource

theorem not_isAboutTarget_of_mem_ttl {t : TtlSpec} {q : PolicyProblem} (h : q ∈ t.problems) :
    q.isAboutTarget = false := by
  unfold TtlSpec.problems at h
  grind [PolicyProblem.isAboutTarget]

theorem not_isAboutTarget_of_mem_field {c : FieldCondition} {q : PolicyProblem} (h : q ∈ c.problems) :
    q.isAboutTarget = false := by
  unfold FieldCondition.problems at h
  grind [PolicyProblem.isAboutTarget]

/-- The problems about the target are the target's. -/
theorem PolicySpec.exists_targetProblem_iff {s : PolicySpec} :
    (∃ q ∈ s.problems, q.isAboutTarget = true) ↔ ¬ s.targetResource.IsNamed := by
  rw [← TargetResource.exists_mem_problems_iff]
  constructor
  · rintro ⟨q, hq, habout⟩
    simp only [problems, List.mem_append] at hq
    rcases hq with ((hq | hq) | hq) | hq
    · exact ⟨q, hq⟩
    · simp [not_isAboutTarget_of_mem_ttl hq] at habout
    · cases hc : s.conditions with
      | none => simp [hc] at hq
      | some c =>
        obtain ⟨f, -, hf⟩ : ∃ f ∈ c.fields, q ∈ f.problems := by simpa [hc] using hq
        simp [not_isAboutTarget_of_mem_field hf] at habout
    · obtain ⟨-, rfl⟩ := mem_problemWhen_iff.mp hq
      simp [PolicyProblem.isAboutTarget] at habout
  · rintro ⟨q, hq⟩
    exact ⟨q, by simp [problems, hq], TargetResource.isAboutTarget_of_mem hq⟩

/-! ## Plurals -/

/-- Two bytes before the end of a word of one byte there is no place, and `y` is the only such word that asks for it. -/
theorem Plural.ofLower?_eq_none_iff {word : String} : ofLower? word = none ↔ word = "y" := by
  have hshort (hlast : word.toList.getLast? = some 'y') (hsize : word.utf8ByteSize < 2) : word = "y" := by
    obtain ⟨front, hword⟩ := List.getLast?_eq_some_iff.mp hlast
    obtain rfl : word = String.ofList front ++ "y" := by
      rw [← String.ofList_toList (s := word), hword, String.ofList_append]
    have hy : "y".utf8ByteSize = 1 := by decide
    rw [String.utf8ByteSize_append, hy] at hsize
    rw [String.utf8ByteSize_eq_zero_iff.mp (by omega : (String.ofList front).utf8ByteSize = 0), String.empty_append]
  refine ⟨fun h => ?_, fun h => by rw [h]; decide +kernel⟩
  unfold ofLower? at h
  dsimp only at h
  repeat' split at h
  all_goals first
    | exact hshort (not_not.mp ‹_›) ‹_›
    | cases h

theorem toLower_eq_y_iff {c : Char} : c.toLower = 'y' ↔ c = 'y' ∨ c = 'Y' := by
  refine ⟨fun h => ?_, by rintro (rfl | rfl) <;> decide⟩
  unfold Char.toLower at h
  split at h
  · rename_i hrange
    have hle : c.val.toNat ≤ 90 := UInt32.le_iff_toNat_le.mp hrange.2
    have hval : (c.val + 32).toNat = 121 := congrArg (fun d : Char => d.val.toNat) h
    rw [UInt32.toNat_add] at hval
    exact .inr (Char.ext (UInt32.toNat_inj.mp (by change _ = 89; change (_ + 32) % _ = _ at hval; omega)))
  · exact .inl h

theorem Plural.ofKind?_eq_none_iff {kind : String} : ofKind? kind = none ↔ kind = "y" ∨ kind = "Y" := by
  have hchars (s : String) : kind = s ↔ kind.toList = s.toList := String.toList_inj.symm
  rw [ofKind?, ofLower?_eq_none_iff, ← String.toList_inj, String.toList_ofList, hchars, hchars]
  cases kind.toList with
  | nil => simp
  | cons c rest => simp [toLower_eq_y_iff, ← or_and_right]

namespace TargetResource

/-- No plural is given, and the kind is a lone `y`, which has none. -/
def LacksPlural (t : TargetResource) : Prop :=
  WatchTarget.nonBlank? t.resource = none ∧ (trimText t.kind = "y" ∨ trimText t.kind = "Y")

theorem lacksPlural_iff {t : TargetResource} :
    t.LacksPlural ↔ (WatchTarget.nonBlank? t.resource <|> Plural.ofKind? (trimText t.kind)) = none := by
  rw [LacksPlural, ← Plural.ofKind?_eq_none_iff]
  cases WatchTarget.nonBlank? t.resource <;> simp

end TargetResource

namespace WatchTarget

variable {p : Policy} {t : WatchTarget}

/-- What is resolved, and from what. -/
theorem ofPolicy?_eq_ok_iff : ofPolicy? p = some (.ok t) ↔
    p.spec.targetResource.IsNamed ∧ ¬ p.spec.targetResource.HasEmptyGroup ∧
      scope? p = some t.namespace ∧
      (nonBlank? p.spec.targetResource.resource <|> Plural.ofKind? (trimText p.spec.targetResource.kind)) = some t.plural ∧
      p.spec.targetResource.groupVersion = (t.group, t.version) ∧ t.kind = trimText p.spec.targetResource.kind ∧
      t.labelSelector = (p.spec.targetResource.labelSelector.map LabelSelector.text).getD "" ∧
      t.fieldSelector = (p.spec.targetResource.fieldSelector.map FieldSelector.text).getD "" := by
  rw [TargetResource.hasEmptyGroup_iff]
  unfold ofPolicy?
  dsimp only
  split
  · rename_i hblank
    exact iff_of_false (by simp) fun h => h.1.version_ne (TargetResource.version_of_isBlankText hblank)
  split
  · rename_i hblank
    exact iff_of_false (by simp) fun h => Bool.noConfusion (hblank.symm.trans h.1.kind)
  rename_i hkind
  rw [Bool.not_eq_true] at hkind
  split
  · rename_i hmalformed
    refine iff_of_false (by simp) fun h => ?_
    simp only [String.contains_char_eq, Bool.or_eq_true, Bool.and_eq_true, String.isEmpty_iff, decide_eq_true_eq] at hmalformed
    exact hmalformed.elim (fun hv => hv.elim h.1.version_ne h.1.version_noSlash) h.2.1
  · rename_i hformed
    simp only [String.contains_char_eq, Bool.or_eq_true, Bool.and_eq_true, String.isEmpty_iff, decide_eq_true_eq,
      not_or] at hformed
    have hnamed : p.spec.targetResource.IsNamed := ⟨hkind, hformed.1.1, hformed.1.2⟩
    cases hscope : scope? p with
    | none => simp
    | some ns =>
      dsimp only
      rw [Option.map_eq_some_iff]
      constructor
      · rintro ⟨plural, hplural, heq⟩
        cases heq
        exact ⟨hnamed, hformed.2, rfl, hplural, rfl, rfl, rfl, rfl⟩
      · rintro ⟨-, -, hns, hplural, hparts, hkindText, hlabels, hfields⟩
        obtain ⟨hgroup, hversion⟩ := Prod.ext_iff.mp hparts
        cases t
        cases hns
        cases hgroup
        cases hversion
        cases hkindText
        cases hlabels
        cases hfields
        exact ⟨_, hplural, rfl⟩

/-- A policy resolves when its target is named, its group is not missing, there is a namespace, and the kind has a
plural. -/
theorem resolves_iff :
    (∃ t, ofPolicy? p = some (.ok t)) ↔
      p.spec.targetResource.IsNamed ∧ ¬ p.spec.targetResource.HasEmptyGroup ∧ (scope? p).isSome ∧
        ¬ p.spec.targetResource.LacksPlural := by
  rw [TargetResource.lacksPlural_iff, Option.isSome_iff_exists, ← ne_eq, Option.ne_none_iff_exists']
  constructor
  · rintro ⟨t, ht⟩
    obtain ⟨hnamed, hgroup, hscope, hplural, -⟩ := ofPolicy?_eq_ok_iff.mp ht
    exact ⟨hnamed, hgroup, ⟨_, hscope⟩, ⟨_, hplural⟩⟩
  · rintro ⟨hnamed, hgroup, ⟨ns, hscope⟩, ⟨plural, hplural⟩⟩
    exact ⟨⟨_, _, _, plural, ns, _, _⟩, ofPolicy?_eq_ok_iff.mpr ⟨hnamed, hgroup, hscope, hplural, rfl, rfl, rfl, rfl⟩⟩

theorem isSome_scope? (h : p.metadata.namespace.isSome) : (scope? p).isSome := by
  unfold scope?
  split
  · split <;> rfl
  · simpa using h

/-- What is watched carries the API version and the kind as they are written, without the blanks around them, and the API
version is cut at its only slash. -/
structure Names (t : WatchTarget) (r : TargetResource) : Prop where
  apiVersion : t.apiVersion = trimText r.apiVersion
  kind : t.kind = trimText r.kind
  group_noSlash : '/' ∉ t.group.toList
  version_noSlash : '/' ∉ t.version.toList
  version_ne : t.version ≠ ""

theorem names_of_ofPolicy? (h : ofPolicy? p = some (.ok t)) : t.Names p.spec.targetResource := by
  obtain ⟨hnamed, hempty, -, -, hparts, hkind, -⟩ := ofPolicy?_eq_ok_iff.mp h
  obtain ⟨-, hne, hnoSlash⟩ := hnamed
  obtain ⟨hno, hcut⟩ | ⟨group, version, hgroup, htext, hcut⟩ := p.spec.targetResource.groupVersion_cases
  · obtain ⟨hgroup, hversion⟩ := Prod.ext_iff.mp (hparts.symm.trans hcut)
    dsimp only at hgroup hversion
    refine ⟨?_, hkind, by simp [hgroup], by simpa [hversion, trimText] using hno, by rwa [hparts] at hne⟩
    rw [apiVersion, hgroup, hversion]
    rfl
  · obtain ⟨hgroupText, hversionText⟩ := Prod.ext_iff.mp (hparts.symm.trans hcut)
    dsimp only at hgroupText hversionText
    rw [hparts] at hne hnoSlash
    refine ⟨?_, hkind, by simpa [hgroupText] using hgroup, hnoSlash, hne⟩
    have hsome : String.ofList group ≠ "" := by
      intro hnil
      obtain rfl : group = [] := by simpa using congrArg String.toList hnil
      exact hempty (by rw [TargetResource.HasEmptyGroup, htext]; rfl)
    rw [apiVersion, hgroupText, hversionText, if_neg (by rwa [String.isEmpty_iff]), trimText, htext,
      ← String.toList_inj]
    simp

/-- The target of a policy that is in a namespace has a problem exactly when the policy does not resolve, unless it is
named and its API version begins with its slash or its kind has no plural: these are no problems and do not resolve. What
does resolve carries the API version and the kind as they are written. -/
theorem problems_agree_with_resolution (p : Policy) (h : p.metadata.namespace.isSome) :
    (((∃ q ∈ p.spec.problems, q.isAboutTarget = true) ↔ ¬ ∃ t, ofPolicy? p = some (.ok t)) ↔
      (p.spec.targetResource.IsNamed →
        ¬ p.spec.targetResource.HasEmptyGroup ∧ ¬ p.spec.targetResource.LacksPlural)) ∧
    ∀ t, ofPolicy? p = some (.ok t) → t.Names p.spec.targetResource := by
  refine ⟨?_, fun t => names_of_ofPolicy?⟩
  have hscope := isSome_scope? h
  rw [resolves_iff, PolicySpec.exists_targetProblem_iff]
  by_cases hnamed : p.spec.targetResource.IsNamed
  · simp [hnamed, hscope]
  · simp [hnamed]

/-! A target that resolves, with blanks around its texts, and one that does not, without a problem. -/

def deployments : Policy where
  metadata := { «namespace» := some "apps" }
  spec := { targetResource := { apiVersion := " apps/v1\n", kind := " Deployment" }, ttl := {} }

def deploymentWatch : WatchTarget where
  group := "apps"
  version := "v1"
  kind := "Deployment"
  plural := "deployments"
  «namespace» := some "apps"
  labelSelector := ""
  fieldSelector := ""

theorem deployments_resolves :
    deployments.metadata.namespace.isSome ∧
      ((∃ q ∈ deployments.spec.problems, q.isAboutTarget = true) ↔ ¬ ∃ t, ofPolicy? deployments = some (.ok t)) ∧
      ofPolicy? deployments = some (.ok deploymentWatch) ∧
      deploymentWatch.Names deployments.spec.targetResource := by
  have hnamed : deployments.spec.targetResource.IsNamed :=
    ⟨by decide +kernel, by decide +kernel, by decide +kernel⟩
  have hempty : ¬ deployments.spec.targetResource.HasEmptyGroup := by
    unfold TargetResource.HasEmptyGroup
    decide +kernel
  have hwatch : ofPolicy? deployments = some (.ok deploymentWatch) :=
    ofPolicy?_eq_ok_iff.mpr ⟨hnamed, hempty, by decide +kernel, by decide +kernel, by decide +kernel, by decide +kernel,
      rfl, rfl⟩
  obtain ⟨hagree, hnames⟩ := problems_agree_with_resolution deployments rfl
  exact ⟨rfl, hagree.mpr fun _ => ⟨hempty, (resolves_iff.mp ⟨_, hwatch⟩).2.2.2⟩, hwatch, hnames _ hwatch⟩

def rooted : Policy where
  metadata := { «namespace» := some "apps" }
  spec := { targetResource := { apiVersion := "/v1", kind := "Pod" }, ttl := {} }

/-- The group is missing, which is no problem and cannot be watched. -/
theorem rooted_unreported :
    rooted.metadata.namespace.isSome ∧ (¬ ∃ q ∈ rooted.spec.problems, q.isAboutTarget = true) ∧
      ofPolicy? rooted = some (.error (.malformedApiVersion "/v1")) := by
  have hnamed : rooted.spec.targetResource.IsNamed := ⟨by decide +kernel, by decide +kernel, by decide +kernel⟩
  have hparts : rooted.spec.targetResource.groupVersion = ("", "v1") := by decide +kernel
  have hset : isBlankText "/v1" = false ∧ isBlankText "Pod" = false := by decide +kernel
  refine ⟨rfl, PolicySpec.exists_targetProblem_iff.not.mpr (not_not.mpr hnamed), ?_⟩
  rw [ofPolicy?, hparts]
  simp [rooted, hset]

end WatchTarget

end Reaper
