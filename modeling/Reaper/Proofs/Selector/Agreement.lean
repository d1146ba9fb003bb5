import Reaper.Policy.Target
import Reaper.Proofs.Selector.FieldText
import Reaper.Proofs.Selector.Labels

/-!
# What a watch shows of what a policy matches

A watch is narrowed by the texts of the policy's two selectors, and what it delivers is matched against the selectors
again. `watch_shows_matched_iff` says what the narrowing takes away: nothing by labels, whose text is read as a query
with the selector's verdict on every label map, and nothing by the field terms that are meant, which hold of all that is
matched. The field text is read as these terms unless one of its values holds a character of the grammar, because values
are sent as they are; `not_shows_injected` is a name that is read as two terms.
-/

namespace Reaper

/-- The label text is a query with the selector's verdict. -/
theorem LabelSelector.exists_query {s : LabelSelector} (h : s.IsPlain) (labels : Option (Dictionary String)) :
    ∃ q, LabelQuery.read? s.text = some q ∧ LabelQuery.holds q (labels.getD ∅) = s.holds labels :=
  ⟨s.terms, read?_text h, s.holds_terms labels⟩

namespace TargetResource

variable {t : TargetResource} {scope : Option String} {r : Resource} {doc : Json}

theorem scope_of_selects (h : t.selects scope r doc = true) : ∀ ns ∈ scope, r.metadata.namespace = some ns := by
  intro ns hns
  cases hns
  simp only [selects, Option.all_some, Bool.and_eq_true, beq_iff_eq] at h
  exact h.1.1

theorem labels_of_selects (h : t.selects scope r doc = true) {s : LabelSelector} (hs : t.labelSelector = some s) :
    s.holds r.metadata.labels = true := by
  simp only [selects, hs, Option.all_some, Bool.and_eq_true] at h
  exact h.1.2

theorem fields_of_selects (h : t.selects scope r doc = true) {s : FieldSelector} (hs : t.fieldSelector = some s) :
    s.holds doc = true := by
  simp only [selects, hs, Option.all_some, Bool.and_eq_true] at h
  exact h.2

end TargetResource

namespace WatchTarget

/-- A watch has the texts of its policy's selectors; the empty text stands for no selector. -/
theorem texts_of_ofPolicy? {p : Policy} {w : WatchTarget} (h : ofPolicy? p = some (.ok w)) :
    w.labelSelector = (p.spec.targetResource.labelSelector.map LabelSelector.text).getD "" ∧
      w.fieldSelector = (p.spec.targetResource.fieldSelector.map FieldSelector.text).getD "" := by
  simp only [ofPolicy?] at h
  split at h
  · simp at h
  split at h
  · simp at h
  split at h
  · simp at h
  split at h
  · simp at h
  obtain ⟨plural, -, heq⟩ := Option.map_eq_some_iff.mp h
  cases heq
  exact ⟨rfl, rfl⟩

theorem exists_of_mem_selectors {p : Policy} {w : WatchTarget} (h : ofPolicy? p = some (.ok w)) :
    (∀ text ∈ w.selectors.1, ∃ s, p.spec.targetResource.labelSelector = some s ∧ text = s.text) ∧
      ∀ text ∈ w.selectors.2, ∃ s, p.spec.targetResource.fieldSelector = some s ∧ text = s.text := by
  obtain ⟨hlabel, hfield⟩ := texts_of_ofPolicy? h
  constructor <;> intro text htext
  · cases hs : p.spec.targetResource.labelSelector <;> simp_all [selectors]
  · cases hs : p.spec.targetResource.fieldSelector <;> simp_all [selectors]

/-- A field selector with a term to send is sent. -/
theorem mem_selectors_of_terms {p : Policy} {w : WatchTarget} (h : ofPolicy? p = some (.ok w)) {s : FieldSelector}
    (hs : p.spec.targetResource.fieldSelector = some s) {e : String × String} (he : e ∈ s.terms) :
    s.text ∈ w.selectors.2 := by
  have hne : s.text ≠ "" := by
    intro hempty
    have htext := s.text_toList
    obtain ⟨t, ts, hts⟩ := List.exists_cons_of_ne_nil (List.ne_nil_of_mem he)
    rw [hempty, hts] at htext
    cases ts <;> simp [FieldSelector.part] at htext
  have hfield := (texts_of_ofPolicy? h).2
  rw [hs] at hfield
  simpa [selectors, hfield] using hne

/-- A resource is where the watch looks, and meets the texts that are sent, as the API server reads them. -/
structure Shows (w : WatchTarget) (r : Resource) : Prop where
  inScope : ∀ ns ∈ w.namespace, r.metadata.namespace = some ns
  labels : ∀ text ∈ w.selectors.1, ∃ q, LabelQuery.read? text = some q ∧
    LabelQuery.holds q (r.metadata.labels.getD ∅) = true
  fields : ∀ text ∈ w.selectors.2, ∃ q, FieldQuery.read? text = some q ∧ FieldQuery.holds q r = true

end WatchTarget

/-- The label text of a selector made of words is a query of the same verdict, for every label map and for none. The
field text is made of terms that hold of every resource which a target matches, the resource's other fields being no
second metadata, as is so for all that is read. A watch shows a resource that its policy matches exactly if none of the
field values sent holds a comma, an equals sign or a backslash. -/
theorem watch_shows_matched_iff (labels : Option (Dictionary String)) (r : Resource) :
    (∀ s : LabelSelector, s.IsPlain →
      ∃ q, LabelQuery.read? s.text = some q ∧ LabelQuery.holds q (labels.getD ∅) = s.holds labels) ∧
    (∀ j, Resource.decode? j = some r → "metadata" ∉ r.fields.map (·.1)) ∧
    ("metadata" ∉ r.fields.map (·.1) →
      (∀ (t : TargetResource) (scope : Option String), t.selects scope r r.document = true →
        ∀ s, t.fieldSelector = some s →
          s.text = ",".intercalate (s.terms.map fun e => e.1 ++ "=" ++ e.2) ∧
            ∀ e ∈ s.terms, r.serverField? e.1 = some e.2) ∧
      ∀ (p : Policy) (w : WatchTarget), WatchTarget.ofPolicy? p = some (.ok w) →
        (∀ s, p.spec.targetResource.labelSelector = some s → s.IsPlain) →
        p.spec.targetResource.selects w.namespace r r.document = true →
        (w.Shows r ↔
          ∀ s, p.spec.targetResource.fieldSelector = some s → ∀ e ∈ s.terms, FieldQuery.IsLiteral e.2)) := by
  refine ⟨fun s hs => LabelSelector.exists_query hs labels, fun j h => Resource.metadata_notMem_fields h, fun hr => ?_⟩
  have hterms (t : TargetResource) (scope : Option String) (h : t.selects scope r r.document = true)
      (s : FieldSelector) (hs : t.fieldSelector = some s) : ∀ e ∈ s.terms, r.serverField? e.1 = some e.2 :=
    FieldSelector.terms_hold hr (TargetResource.fields_of_selects h hs)
  refine ⟨fun t scope h s hs => ⟨s.text_eq, hterms t scope h s hs⟩, ?_⟩
  intro p w hw hplain h
  obtain ⟨hlabel, hfield⟩ := WatchTarget.exists_of_mem_selectors hw
  constructor
  · intro hshows s hs e he
    have hquery := hshows.fields s.text (WatchTarget.mem_selectors_of_terms hw hs he)
    exact (FieldSelector.exists_query_iff (hterms _ _ h s hs)).mp hquery e he
  · intro hliteral
    refine ⟨TargetResource.scope_of_selects h, fun text htext => ?_, fun text htext => ?_⟩
    · obtain ⟨s, hs, rfl⟩ := hlabel text htext
      obtain ⟨q, hq, hholds⟩ := LabelSelector.exists_query (hplain s hs) r.metadata.labels
      exact ⟨q, hq, hholds.trans (TargetResource.labels_of_selects h hs)⟩
    · obtain ⟨s, hs, rfl⟩ := hfield text htext
      exact (FieldSelector.exists_query_iff (hterms _ _ h s hs)).mpr (hliteral s hs)

/-! A policy with a requirement of each kind, and a pod that it matches. -/

/-- One of the keys is the grammar's word `in`. -/
def busySelector : LabelSelector where
  matchLabels := .ofList [("app", "web"), ("tier", "")]
  matchExpressions :=
    [⟨"env", .isIn, ["dev", "ci"]⟩, ⟨"stage", .notIn, ["prod"]⟩, ⟨"in", .present, []⟩, ⟨"pinned", .absent, []⟩]

def busyPolicy : Policy where
  metadata := { «namespace» := some "ns" }
  spec :=
    { targetResource :=
        { apiVersion := "v1", kind := "Pod", labelSelector := some busySelector
          fieldSelector := some (.ofList [(" .metadata.name", "job-1"), (".status.phase", "Failed")]) }
      ttl := {} }

def busyWatch : WatchTarget where
  group := ""
  version := "v1"
  kind := "Pod"
  plural := "pods"
  «namespace» := some "ns"
  labelSelector := "app=web,tier=,env in (dev,ci),stage notin (prod),in,!pinned"
  fieldSelector := "metadata.name=job-1"

def failedPod : Resource where
  metadata :=
    { name := some "job-1", «namespace» := some "ns"
      labels := some (.ofList [("app", "web"), ("tier", ""), ("env", "ci"), ("in", "1")]) }
  fields := [("status", .object [("phase", .string "Failed")])]

theorem ofPolicy?_busyPolicy : WatchTarget.ofPolicy? busyPolicy = some (.ok busyWatch) := by
  have hversion : busyPolicy.spec.targetResource.groupVersion = ("", "v1") := by decide +kernel
  have hscope : WatchTarget.scope? busyPolicy = some (some "ns") := by decide +kernel
  have hset : Text.isBlankText "v1" = false ∧ Text.isBlankText "Pod" = false ∧ Text.trimText "Pod" = "Pod" := by
    decide +kernel
  have hplural : Plural.ofKind? "Pod" = some "pods" := by decide +kernel
  have htexts : busySelector.text = busyWatch.labelSelector ∧
      FieldSelector.text (.ofList [(" .metadata.name", "job-1"), (".status.phase", "Failed")]) =
        busyWatch.fieldSelector := by
    decide +kernel
  rw [WatchTarget.ofPolicy?, hversion, hscope]
  simp [busyPolicy, hset, hplural, htexts, WatchTarget.nonBlank?]
  rfl

/-- The pod is matched and shown; without labels it would fail the label query. -/
theorem busyWatch_shows_failedPod :
    busySelector.IsPlain ∧ "metadata" ∉ failedPod.fields.map (·.1) ∧
      busyPolicy.spec.targetResource.selects busyWatch.namespace failedPod failedPod.document = true ∧
      busyWatch.Shows failedPod ∧
      ∃ q, LabelQuery.read? busySelector.text = some q ∧ LabelQuery.holds q ∅ = false := by
  have hplain : busySelector.IsPlain := by decide +kernel
  have hfields : "metadata" ∉ failedPod.fields.map (·.1) := by decide
  have hselects : busyPolicy.spec.targetResource.selects busyWatch.namespace failedPod failedPod.document = true := by
    decide +kernel
  obtain ⟨hquery, -, hmatched⟩ := watch_shows_matched_iff none failedPod
  obtain ⟨q, hq, hnone⟩ := hquery busySelector hplain
  have hshows := (hmatched hfields).2 busyPolicy busyWatch ofPolicy?_busyPolicy
  refine ⟨hplain, hfields, hselects, (hshows ?_ hselects).mpr ?_, q, hq, hnone.trans (by decide +kernel)⟩
  · rintro s hs
    cases hs
    exact hplain
  · rintro s hs
    cases hs
    decide +kernel

/-! A name that is read as a name and a namespace. -/

def injectedSelector : FieldSelector := .ofList [("metadata.name", "a,metadata.namespace=b")]

/-- Roles may have such names. -/
def injectedRole : Resource where
  metadata := { name := some "a,metadata.namespace=b", «namespace» := some "ns" }

/-- The resource is matched, and the text of the selector is read as two terms that both fail. -/
theorem not_shows_injected :
    injectedSelector.holds injectedRole.document = true ∧
      injectedSelector.text = "metadata.name=a,metadata.namespace=b" ∧
      FieldQuery.read? injectedSelector.text =
        some [.equals "metadata.name" "a", .equals "metadata.namespace" "b"] ∧
      (FieldTerm.equals "metadata.name" "a").holds injectedRole = false ∧
      (FieldTerm.equals "metadata.namespace" "b").holds injectedRole = false := by
  decide +kernel

end Reaper
