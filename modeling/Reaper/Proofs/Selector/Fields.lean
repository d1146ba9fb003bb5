import Reaper.Condition
import Reaper.Proofs.Json.Objects
import Reaper.Selector.FieldGrammar

/-!
# Field selectors, matched and sent

Of a field selector a watch sends the terms that the API server can decide for every kind of resource. This module shows
that such a term holds of every resource that the selector matches, so that the server holds nothing back.

The two sides normalise paths in their own ways: what is sent drops all leading dots of a path
(`FieldSelector.bareField`), what is matched reads the path. They agree on no dot and on one (`Path.parse_metadata`); a
path with more dots cannot be read, so nothing is matched by it (`Path.parse_dots`). `FieldSelector.terms_hold` is the
result.
-/

namespace Reaper

namespace Metadata

theorem get?_encode_name (m : Metadata) : m.encode.get? "name" = m.name.map .string :=
  Json.get?_ofPresent _ (by simp) (by simp)

theorem get?_encode_namespace (m : Metadata) : m.encode.get? "namespace" = m.namespace.map .string :=
  Json.get?_ofPresent _ (by simp) (by simp)

end Metadata

namespace Resource

theorem get?_document {r : Resource} (h : "metadata" ∉ r.fields.map (·.1)) :
    r.document.get? "metadata" = some r.metadata.encode := by
  rw [document, List.append_assoc]
  exact Json.get?_ofFields _ _ _ h

/-! A resource that is read has its metadata only once. -/

theorem mem_takeTypeFrom (apiVersion kind : Option String) (kept fields : List (String × Json)) {e : String × Json}
    (h : e ∈ (takeTypeFrom apiVersion kind kept fields).2) : e ∈ kept ∨ e ∈ fields := by
  fun_induction takeTypeFrom apiVersion kind kept fields <;> simp_all <;> grind

theorem map_fst_settledFields? {fields fs : List (String × Json)} (h : Json.settledFields? fields = some fs) :
    fs.map (·.1) = fields.map (·.1) := by
  induction fields generalizing fs with
  | nil => simp_all [Json.settledFields?]
  | cons e rest ih =>
    simp only [Json.settledFields?, Option.bind_eq_bind, Option.bind_eq_some_iff] at h
    obtain ⟨j, -, more, hmore, heq⟩ := h
    cases heq
    simp [ih hmore]

theorem metadata_notMem_fields {j : Json} {r : Resource} (h : decode? j = some r) :
    "metadata" ∉ r.fields.map (·.1) := by
  simp only [decode?, Option.bind_eq_bind, Option.bind_eq_some_iff] at h
  obtain ⟨⟨record, type, others⟩, hparts, m, -, heq⟩ := h
  cases heq
  intro hmem
  cases j with
  | object fields =>
    simp only [parts?, Option.bind_eq_bind, Option.bind_eq_some_iff] at hparts
    obtain ⟨_, -, settled, hsettled, heq⟩ := hparts
    obtain rfl : (takeType settled).2 = others := congrArg (·.2.2) (Option.some.inj heq)
    obtain ⟨e, he, hkey⟩ := List.mem_map.mp hmem
    rcases mem_takeTypeFrom none none [] settled (Dictionary.mem_of_mem_ofList he) with h | h
    · simp at h
    · have := List.mem_map_of_mem (f := (·.1)) h
      rw [map_fst_settledFields? hsettled, hkey] at this
      simp at this
  | _ => simp [parts?] at hparts

end Resource

/-! ## Paths of the server's fields -/

namespace Path

open Text

/-- One dot in front of a path that begins with a key is read away, and so is none. -/
theorem parse_metadata {raw key : String} (hkey : key = "name" ∨ key = "namespace")
    (h : trim raw.toList = ("metadata." ++ key).toList ∨ trim raw.toList = '.' :: ("metadata." ++ key).toList) :
    parse raw = .ok ⟨raw, [.key "metadata", .key key]⟩ := by
  rcases hkey with rfl | rfl <;> rcases h with h | h <;> (rw [parse, body, h]; rfl)

/-- With two dots in front no path is read. -/
theorem parse_dots {raw : String} {rest : List Char} (h : trim raw.toList = '.' :: '.' :: rest) :
    parse raw = .error (.emptyStep raw) := by
  rw [parse, body, h]
  rfl

theorem follow?_metadata {r : Resource} (h : "metadata" ∉ r.fields.map (·.1)) (key : String) :
    follow? [.key "metadata", .key key] r.document = r.metadata.encode.get? key := by
  have hdoc : (Step.key "metadata").follow? r.document = some r.metadata.encode := r.get?_document h
  have hkey : (Step.key key).follow? r.metadata.encode = r.metadata.encode.get? key := rfl
  simp [follow?, hdoc, hkey]

end Path

/-- A field of the server is a text of the metadata, under the last key of its name. -/
theorem Resource.serverField?_metadata (r : Resource) {key : String} (hkey : key = "name" ∨ key = "namespace") :
    r.metadata.encode.get? key = (r.serverField? ("metadata." ++ key)).map .string := by
  rcases hkey with rfl | rfl
  · exact r.metadata.get?_encode_name
  · exact r.metadata.get?_encode_namespace

namespace FieldSelector

open Text

theorem mem_serverFields {field : String} (h : field ∈ serverFields) :
    ∃ key, (key = "name" ∨ key = "namespace") ∧ field = "metadata." ++ key := by
  rcases (by simpa [serverFields] using h : field = "metadata.name" ∨ field = "metadata.namespace") with rfl | rfl
  · exact ⟨"name", .inl rfl, rfl⟩
  · exact ⟨"namespace", .inr rfl, rfl⟩

/-- A path that is sent has some dots in front of its field. -/
theorem trim_eq_of_bareField {path field : String} (h : bareField path = field) :
    ∃ n, trim path.toList = List.replicate n '.' ++ field.toList := by
  refine ⟨((trim path.toList).takeWhile (· == '.')).length, ?_⟩
  have hdots : (trim path.toList).takeWhile (· == '.') =
      List.replicate ((trim path.toList).takeWhile (· == '.')).length '.' := by
    refine List.eq_replicate_of_mem fun c hc => ?_
    simpa using List.all_eq_true.mp List.all_takeWhile c hc
  rw [← hdots, ← h, bareField, String.toList_ofList, List.takeWhile_append_dropWhile]

/-- A path of a server's field that leads somewhere leads to that field of the metadata. -/
theorem serverField?_of_lookup? {r : Resource} (hr : "metadata" ∉ r.fields.map (·.1)) {path : String}
    (hpath : bareField path ∈ serverFields) {found : Json} (h : Path.lookup? r.document path = some found) :
    (r.serverField? (bareField path)).map .string = some found := by
  obtain ⟨key, hkey, hfield⟩ := mem_serverFields hpath
  obtain ⟨n, htrim⟩ := trim_eq_of_bareField hfield
  rw [hfield, ← r.serverField?_metadata hkey, ← Path.follow?_metadata hr]
  have hread (hparse : Path.parse path = .ok ⟨path, [.key "metadata", .key key]⟩) :
      Path.follow? [.key "metadata", .key key] r.document = some found := by
    simp only [Path.lookup?, hparse, Path.resolve?, Option.filter_eq_some_iff] at h
    exact h.1
  match n with
  | 0 => exact hread (Path.parse_metadata hkey (.inl (by simpa using htrim)))
  | 1 => exact hread (Path.parse_metadata hkey (.inr (by simpa using htrim)))
  | n + 2 =>
    rw [Path.lookup?, Path.parse_dots (by simpa [List.replicate_succ] using htrim)] at h
    simp at h

/-- The terms that are sent: fields that the server knows, with their values. -/
def terms (s : FieldSelector) : List (String × String) :=
  s.entries.filterMap fun e => if serverFields.contains (bareField e.1) then some (bareField e.1, e.2) else none

theorem text_eq (s : FieldSelector) : s.text = ",".intercalate (s.terms.map fun t => t.1 ++ "=" ++ t.2) := by
  rw [text, terms, List.map_filterMap]
  congr 2
  funext e
  split <;> rfl

theorem mem_terms {s : FieldSelector} {t : String × String} (h : t ∈ s.terms) :
    t.1 ∈ serverFields ∧ ∃ e ∈ s.entries, bareField e.1 = t.1 ∧ e.2 = t.2 := by
  obtain ⟨e, he, hterm⟩ := List.mem_filterMap.mp h
  split at hterm
  · rename_i hfield
    cases hterm
    exact ⟨by simpa using hfield, e, he, rfl, rfl⟩
  · simp at hterm

/-- What is sent holds of every resource that is matched. -/
theorem terms_hold {s : FieldSelector} {r : Resource} (hr : "metadata" ∉ r.fields.map (·.1))
    (h : s.holds r.document = true) : ∀ t ∈ s.terms, r.serverField? t.1 = some t.2 := by
  intro t ht
  obtain ⟨hfield, e, he, hpath, hvalue⟩ := mem_terms ht
  have hmatch : (Path.lookup? r.document e.1).bind Json.asText? = some t.2 := by
    simpa [hvalue] using List.all_eq_true.mp h e he
  obtain ⟨found, hfound, htext⟩ := Option.bind_eq_some_iff.mp hmatch
  have hserver := serverField?_of_lookup? hr (hpath ▸ hfield) hfound
  obtain ⟨v, hv, rfl⟩ := Option.map_eq_some_iff.mp hserver
  rw [← hpath, hv]
  simpa [Json.asText?] using htext

end FieldSelector

end Reaper
