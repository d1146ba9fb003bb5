import Reaper.Json.Decode

/-!
Objects that are built from fields, and parts that are read one by one.

An object that is built has its fields in increasing key order, each name once. So a field is found by its name
(`get?_ofPresent`), and every record reads the object as it is (`record?_ofPresent`).
-/

namespace Reaper.Json

/-! ## Parts -/

theorem exists_of_mem_mapM {α β : Type} {f : α → Option β} {xs : List α} {ys : List β} (h : xs.mapM f = some ys)
    {y : β} (hy : y ∈ ys) : ∃ x ∈ xs, f x = some y := by
  induction xs generalizing ys with
  | nil =>
    obtain rfl : ys = [] := by simpa using h.symm
    simp at hy
  | cons x rest ih =>
    simp only [List.mapM_cons, Option.bind_eq_bind, Option.bind_eq_some_iff] at h
    obtain ⟨z, hz, zs, hzs, heq⟩ := h
    cases heq
    rcases List.mem_cons.mp hy with rfl | hy
    · exact ⟨x, by simp, hz⟩
    · obtain ⟨w, hw, hwy⟩ := ih hzs hy
      exact ⟨w, by simp [hw], hwy⟩

/-- Parts that are read back one by one are read back together. -/
theorem mapM_map_eq_some {α β : Type} {read : β → Option α} {write : α → β} {xs : List α}
    (h : ∀ x ∈ xs, read (write x) = some x) : (xs.map write).mapM read = some xs := by
  induction xs with
  | nil => rfl
  | cons x rest ih =>
    obtain ⟨hx, hrest⟩ := List.forall_mem_cons.mp h
    rw [List.map_cons, List.mapM_cons, hx, ih hrest]
    rfl

/-! ## Objects -/

variable {key : String}

theorem lookup_insertEntries_of_notMem (fields : List (String × Json)) (h : key ∉ fields.map (·.1))
    (start : List (String × Json)) :
    Dictionary.lookup key (fields.foldl (fun fs e => Dictionary.insertEntry e.1 e.2 fs) start) =
      Dictionary.lookup key start := by
  induction fields generalizing start with
  | nil => rfl
  | cons e rest ih =>
    obtain ⟨he, hrest⟩ : key ≠ e.1 ∧ key ∉ rest.map (·.1) := by simpa using h
    rw [List.foldl_cons, ih hrest, Dictionary.lookup_insertEntry, if_neg (Ne.symm he)]

/-- A field that is not named again afterwards is found. -/
theorem get?_ofFields (before after : List (String × Json)) (value : Json) (h : key ∉ after.map (·.1)) :
    (ofFields (before ++ (key, value) :: after)).get? key = some value := by
  rw [ofFields, get?, List.foldl_append, List.foldl_cons, lookup_insertEntries_of_notMem after h,
    Dictionary.lookup_insertEntry, if_pos rfl]

theorem get?_ofFields_of_notMem (fields : List (String × Json)) (h : key ∉ fields.map (·.1)) :
    (ofFields fields).get? key = none :=
  lookup_insertEntries_of_notMem fields h []

/-- Among fields of different names each has its value, or is left out with it. -/
theorem get?_ofPresent (fields : List (String × Option Json)) (h : (fields.map (·.1)).Nodup) {value : Option Json}
    (hmem : (key, value) ∈ fields) : (ofPresent fields).get? key = value := by
  have hkept (es : List (String × Option Json)) (hes : key ∉ es.map (·.1)) :
      key ∉ (es.filterMap fun e => e.2.map (e.1, ·)).map (·.1) := by
    intro hk
    simp only [List.mem_map, List.mem_filterMap, Option.map_eq_some_iff] at hk hes
    obtain ⟨_, ⟨e, he, v, -, rfl⟩, hek⟩ := hk
    exact hes ⟨e, he, hek⟩
  obtain ⟨before, after, rfl⟩ := List.append_of_mem hmem
  have hnodup : key ∉ before.map (·.1) ∧ key ∉ after.map (·.1) := by
    simp only [List.map_append, List.map_cons, List.nodup_append, List.nodup_cons] at h
    exact ⟨fun hb => h.2.2 key hb key (by simp) rfl, h.2.1.1⟩
  cases value with
  | some v =>
    rw [ofPresent, List.filterMap_append, List.filterMap_cons_some (by rfl)]
    exact get?_ofFields _ _ v (hkept after hnodup.2)
  | none =>
    rw [ofPresent]
    refine get?_ofFields_of_notMem _ ?_
    rw [List.filterMap_append, List.filterMap_cons_none (by rfl), ← List.filterMap_append]
    exact hkept _ (by simpa using not_or.mpr hnodup)

theorem ofFields_sorted (fields : List (String × Json)) :
    (fields.foldl (fun fs e => Dictionary.insertEntry e.1 e.2 fs) []).Pairwise fun a b => a.1 < b.1 := by
  have hfold (start : List (String × Json)) (hstart : start.Pairwise fun a b => a.1 < b.1) :
      (fields.foldl (fun fs e => Dictionary.insertEntry e.1 e.2 fs) start).Pairwise fun a b => a.1 < b.1 := by
    induction fields generalizing start with
    | nil => exact hstart
    | cons e rest ih => exact ih _ (Dictionary.insertEntry_sorted e.1 e.2 hstart)
  exact hfold [] .nil

/-- Of fields in increasing key order no two have one name. -/
theorem length_occurrences_le (key : String) {fields : List (String × Json)}
    (h : fields.Pairwise fun a b => a.1 < b.1) : ((object fields).occurrences key).length ≤ 1 := by
  have hsorted := h.filter (·.1 == key)
  have hkey : ∀ e ∈ fields.filter (·.1 == key), e.1 = key := by simp
  rw [occurrences, List.length_map]
  generalize fields.filter (·.1 == key) = found at hsorted hkey ⊢
  match found with
  | [] => exact Nat.zero_le 1
  | [_] => exact Nat.le_refl 1
  | e :: e' :: _ =>
    have hlt := (List.pairwise_cons.mp hsorted).1 e' (by simp)
    rw [hkey e (by simp), hkey e' (by simp)] at hlt
    exact absurd hlt (String.lt_irrefl key)

/-- A record reads an object that is built as it is. -/
theorem record?_ofPresent (names : List String) (fields : List (String × Option Json)) :
    (ofPresent fields).record? names = some (ofPresent fields) :=
  if_pos (List.all_eq_true.mpr fun n _ => decide_eq_true (length_occurrences_le n (ofFields_sorted _)))

/-- A value that is built as an object of fields of different names is read as a record as it is, and each field of it is
found by its name. -/
theorem record_of_eq_ofPresent {j : Json} {fields : List (String × Option Json)} (hj : j = ofPresent fields)
    (h : (fields.map (·.1)).Nodup) :
    (∀ names, j.record? names = some j) ∧ ∀ e ∈ fields, j.get? e.1 = e.2 := by
  subst hj
  exact ⟨fun names => record?_ofPresent names fields, fun e he => get?_ofPresent fields h he⟩

end Reaper.Json
