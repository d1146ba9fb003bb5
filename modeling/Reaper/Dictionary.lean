/-!
Dictionaries: finite maps from texts, kept in strictly increasing key order.

The order is part of the type, so two dictionaries with the same entries are equal, and what is listed, written or
compared is in key order. `insert` replaces, `erase` removes, and `ofList` builds from entries where a later entry
wins. The laws: `get?_insert`, `get?_erase`, and `ofList_entries`, which says that a dictionary is rebuilt from its
own entries.
-/

namespace Reaper

/-- A finite map from texts to values, entries in strictly increasing key order. -/
structure Dictionary (α : Type) where
  entries : List (String × α)
  sorted : entries.Pairwise (fun a b => a.1 < b.1)

namespace Dictionary

variable {α β : Type}

def empty : Dictionary α := ⟨[], .nil⟩

instance : Inhabited (Dictionary α) := ⟨empty⟩
instance : EmptyCollection (Dictionary α) := ⟨empty⟩

instance [BEq α] : BEq (Dictionary α) := ⟨fun a b => a.entries == b.entries⟩

instance [DecidableEq α] : DecidableEq (Dictionary α) := fun a b =>
  if h : a.entries = b.entries then isTrue (by cases a; cases b; cases h; rfl)
  else isFalse fun e => h (congrArg entries e)

instance [Repr α] : Repr (Dictionary α) := ⟨fun d n => reprPrec d.entries n⟩

@[ext] theorem ext {a b : Dictionary α} (h : a.entries = b.entries) : a = b := by
  cases a; cases b; cases h; rfl

/-- The value of the first entry with the key. -/
def lookup (key : String) : List (String × α) → Option α
  | [] => none
  | (k, v) :: rest => if k = key then some v else lookup key rest

/-- The entries with one entry replaced, or put in its place in the order. -/
def insertEntry (key : String) (value : α) : List (String × α) → List (String × α)
  | [] => [(key, value)]
  | (k, v) :: rest =>
    if key < k then (key, value) :: (k, v) :: rest
    else if k = key then (key, value) :: rest
    else (k, v) :: insertEntry key value rest

theorem mem_insertEntry {key : String} {value : α} {es : List (String × α)} {e : String × α}
    (h : e ∈ insertEntry key value es) : e = (key, value) ∨ e ∈ es := by
  induction es with
  | nil => simpa [insertEntry] using h
  | cons f rest ih =>
    rw [insertEntry] at h
    split at h
    · simpa using h
    · split at h
      · rcases List.mem_cons.mp h with rfl | h
        · exact .inl rfl
        · exact .inr (List.mem_cons_of_mem _ h)
      · rcases List.mem_cons.mp h with rfl | h
        · exact .inr (List.mem_cons_self ..)
        · exact (ih h).imp id (List.mem_cons_of_mem _)

theorem insertEntry_sorted (key : String) (value : α) {es : List (String × α)}
    (h : es.Pairwise (fun a b => a.1 < b.1)) :
    (insertEntry key value es).Pairwise (fun a b => a.1 < b.1) := by
  induction es with
  | nil => simp [insertEntry]
  | cons f rest ih =>
    obtain ⟨hf, hr⟩ := List.pairwise_cons.mp h
    rw [insertEntry]
    split
    · rename_i hlt
      refine List.pairwise_cons.mpr ⟨fun e he => ?_, h⟩
      rcases List.mem_cons.mp he with rfl | he
      · exact hlt
      · exact String.lt_trans hlt (hf e he)
    · rename_i hle
      split
      · rename_i heq
        subst heq
        exact List.pairwise_cons.mpr ⟨hf, hr⟩
      · rename_i hne
        refine List.pairwise_cons.mpr ⟨fun e he => ?_, ih hr⟩
        rcases mem_insertEntry he with rfl | he
        · have hge : f.1 ≤ key := by simpa using String.not_lt.mp hle
          rcases Decidable.em (key ≤ f.1) with h' | h'
          · exact absurd (String.le_antisymm hge h') hne
          · exact String.not_le.mp h'
        · exact hf e he

def get? (d : Dictionary α) (key : String) : Option α := lookup key d.entries

def contains (d : Dictionary α) (key : String) : Bool := (d.get? key).isSome

/-- The dictionary with the value at the key. -/
def insert (d : Dictionary α) (key : String) (value : α) : Dictionary α :=
  ⟨insertEntry key value d.entries, insertEntry_sorted key value d.sorted⟩

def erase (d : Dictionary α) (key : String) : Dictionary α :=
  ⟨d.entries.filter (fun e => e.1 ≠ key), d.sorted.filter _⟩

def filter (d : Dictionary α) (keep : String → α → Bool) : Dictionary α :=
  ⟨d.entries.filter (fun e => keep e.1 e.2), d.sorted.filter _⟩

/-- The dictionary of a list of entries; of two with one key the later wins. -/
def ofList (es : List (String × α)) : Dictionary α := es.foldl (fun d e => d.insert e.1 e.2) empty

/-- The keys in increasing order. -/
def keys (d : Dictionary α) : List String := d.entries.map (·.1)

def size (d : Dictionary α) : Nat := d.entries.length

def isEmpty (d : Dictionary α) : Bool := d.entries.isEmpty

/-- The value at the key changed, where there is one. -/
def modify (d : Dictionary α) (key : String) (f : α → α) : Dictionary α :=
  match d.get? key with
  | some v => d.insert key (f v)
  | none => d

theorem lookup_insertEntry (key k : String) (value : α) (es : List (String × α)) :
    lookup k (insertEntry key value es) = if key = k then some value else lookup k es := by
  induction es with
  | nil => simp [insertEntry, lookup]
  | cons f rest ih =>
    rw [insertEntry]
    split
    · simp [lookup]
    · split
      · rename_i heq
        by_cases h : key = k <;> simp [lookup, h, heq]
      · rename_i hne
        by_cases h : key = k
        · subst h; simp [lookup, hne, ih]
        · simp [lookup, ih, h]

@[simp] theorem get?_empty (k : String) : (empty : Dictionary α).get? k = none := rfl

/-- A value written is read, and other keys keep theirs. -/
theorem get?_insert (d : Dictionary α) (key k : String) (value : α) :
    (d.insert key value).get? k = if key = k then some value else d.get? k :=
  lookup_insertEntry key k value d.entries

theorem lookup_filter (keep : String → Bool) (k : String) (es : List (String × α)) :
    lookup k (es.filter fun e => keep e.1) = if keep k then lookup k es else none := by
  induction es with
  | nil => simp [lookup]
  | cons f rest ih =>
    by_cases hf : f.1 = k
    · subst hf
      cases hkeep : keep f.1 <;> simp [lookup, hkeep, ih]
    · cases hkeep : keep f.1 <;> simp [lookup, hkeep, ih, hf]

/-- Of the entries that are kept by their keys all values stay. -/
theorem get?_filter (d : Dictionary α) (keep : String → Bool) (k : String) :
    (d.filter fun key _ => keep key).get? k = if keep k then d.get? k else none :=
  lookup_filter keep k d.entries

/-- A key removed is gone, and other keys keep their values. -/
theorem get?_erase (d : Dictionary α) (key k : String) :
    (d.erase key).get? k = if k = key then none else d.get? k := by
  refine (lookup_filter (fun k => k ≠ key) k d.entries).trans ?_
  by_cases hk : k = key
  · simp [hk]
  · simp [hk, get?]

theorem lookup_eq_none_iff {k : String} {es : List (String × α)} : lookup k es = none ↔ k ∉ es.map (·.1) := by
  induction es with
  | nil => simp [lookup]
  | cons f rest ih =>
    by_cases hf : f.1 = k
    · simp [lookup, hf]
    · simp [lookup, hf, Ne.symm hf, ih]

theorem get?_eq_none_iff {d : Dictionary α} {k : String} : d.get? k = none ↔ k ∉ d.keys := lookup_eq_none_iff

/-- No key occurs twice. -/
theorem nodup_keys (d : Dictionary α) : d.keys.Nodup := by
  unfold keys List.Nodup
  rw [List.pairwise_map]
  exact d.sorted.imp fun hlt => String.ne_of_lt hlt

theorem insertEntry_append {key : String} {value : α} {es : List (String × α)}
    (h : ∀ e ∈ es, e.1 < key) : insertEntry key value es = es ++ [(key, value)] := by
  induction es with
  | nil => rfl
  | cons f rest ih =>
    have hf : f.1 < key := h f (List.mem_cons_self ..)
    have h1 : ¬ key < f.1 := fun h' => String.lt_irrefl _ (String.lt_trans hf h')
    have h2 : f.1 ≠ key := fun h' => String.lt_irrefl key (h' ▸ hf)
    rw [insertEntry, if_neg h1, if_neg h2, ih fun e he => h e (List.mem_cons_of_mem _ he)]
    rfl

theorem foldl_insert_entries (d : Dictionary α) (es : List (String × α))
    (h : (d.entries ++ es).Pairwise (fun a b => a.1 < b.1)) :
    (es.foldl (fun d e => d.insert e.1 e.2) d).entries = d.entries ++ es := by
  induction es generalizing d with
  | nil => simp
  | cons e rest ih =>
    have hlt : ∀ f ∈ d.entries, f.1 < e.1 := fun f hf =>
      (List.pairwise_append.mp h).2.2 f hf e (List.mem_cons_self ..)
    have hd : (d.insert e.1 e.2).entries = d.entries ++ [e] := insertEntry_append hlt
    rw [List.foldl_cons, ih _ (by rw [hd]; simpa using h), hd]
    simp

/-- A dictionary is rebuilt from its own entries. -/
theorem ofList_entries (d : Dictionary α) : ofList d.entries = d :=
  ext ((foldl_insert_entries empty d.entries (by simpa [empty] using d.sorted)).trans rfl)

/-- A dictionary has no entries but those that it is built from. -/
theorem mem_of_mem_ofList {es : List (String × α)} {e : String × α} (h : e ∈ (ofList es).entries) : e ∈ es := by
  have hfold : ∀ d : Dictionary α, e ∈ (es.foldl (fun d e => d.insert e.1 e.2) d).entries → e ∈ d.entries ∨ e ∈ es := by
    clear h
    induction es with
    | nil => exact fun d h => .inl h
    | cons f rest ih =>
      intro d h
      rcases ih _ h with h | h
      · rcases mem_insertEntry h with rfl | h
        · exact .inr (List.mem_cons_self ..)
        · exact .inl h
      · exact .inr (List.mem_cons_of_mem _ h)
  exact (hfold empty h).resolve_left (by simp [empty])

end Dictionary

end Reaper
