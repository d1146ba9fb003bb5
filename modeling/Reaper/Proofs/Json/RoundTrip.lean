import Reaper.Proofs.Json.Objects

/-!
Values that are written as JSON and read back.

An encoder and a decoder are faithful to each other when every value in range is read back from what is written, only
values in range are read, and nothing is written as null (`Faithful`). So what is absent, and left out of a record, is
never taken for what is there, even if that is empty.

  §1 Values — texts, numbers, choices, lists and dictionaries.
  §2 Fields — the fields of a record that is written with `ofPresent`.
-/

namespace Reaper.Json

/-! ## §1 Values -/

/-- What is written is read back, what is read is in range, and nothing is written as null. -/
structure Faithful {α : Type} (encode : α → Json) (decode? : Decoder α) (InRange : α → Prop) : Prop where
  reads : ∀ {a}, InRange a → decode? (encode a) = some a
  inRange : ∀ {j a}, decode? j = some a → InRange a
  ne_null : ∀ a, encode a ≠ .null

variable {α : Type} {encode : α → Json} {decode? : Decoder α} {InRange : α → Prop}

/-- Writing what was read, and reading it again, changes nothing. -/
theorem Faithful.again (h : Faithful encode decode? InRange) {j : Json} {a : α} (hj : decode? j = some a) :
    decode? (encode a) = some a := h.reads (h.inRange hj)

theorem faithful_text : Faithful string text? fun _ => True where
  reads _ := rfl
  inRange _ := trivial
  ne_null _ := nofun

theorem faithful_truth : Faithful bool truth? fun _ => True where
  reads _ := rfl
  inRange _ := trivial
  ne_null _ := nofun

theorem faithful_whole (low high : Int) : Faithful int (whole? low high) fun n => low ≤ n ∧ n ≤ high where
  reads h := if_pos h
  inRange := by
    intro j n hj
    unfold whole? at hj
    split at hj
    · split at hj
      · rename_i hin
        cases hj
        exact hin
      · cases hj
    · cases hj
  ne_null _ := nofun

theorem faithful_natural (limit : Nat) : Faithful ofNat (natural? limit) fun n => n ≤ limit where
  reads {n} h := by
    have hin : (0 : Int) ≤ n ∧ (n : Int) ≤ limit := ⟨Int.natCast_nonneg n, by exact_mod_cast h⟩
    exact (if_pos hin).trans (congrArg some (Int.toNat_natCast n))
  inRange := by
    intro j n hj
    unfold natural? at hj
    split at hj
    · split at hj
      · cases hj
        omega
      · cases hj
    · cases hj
  ne_null _ := nofun

/-- A choice by its name, if the names tell the choices apart. -/
theorem faithful_choice {choices : List (String × α)} {name : α → String}
    (h : ∀ a, Dictionary.lookup (name a) choices = some a) :
    Faithful (fun a => string (name a)) (choice? choices) fun _ => True where
  reads {a} _ := h a
  inRange _ := trivial
  ne_null _ := nofun

namespace Faithful

/-- A number whose range is said in another way. -/
theorem congr {InRange' : α → Prop} (h : Faithful encode decode? InRange) (hiff : ∀ a, InRange a ↔ InRange' a) :
    Faithful encode decode? InRange' where
  reads ha := h.reads ((hiff _).mpr ha)
  inRange hj := (hiff _).mp (h.inRange hj)
  ne_null := h.ne_null

theorem list (h : Faithful encode decode? InRange) :
    Faithful (fun xs => array (xs.map encode)) (list? decode?) fun xs => ∀ x ∈ xs, InRange x where
  reads hxs := mapM_map_eq_some fun x hx => h.reads (hxs x hx)
  inRange := by
    intro j xs hj x hx
    unfold list? at hj
    split at hj
    · obtain ⟨item, -, hitem⟩ := exists_of_mem_mapM hj hx
      exact h.inRange hitem
    · cases hj
  ne_null _ := nofun

theorem dictionary (h : Faithful encode decode? InRange) :
    Faithful (fun d : Dictionary α => object (d.entries.map fun e => (e.1, encode e.2))) (dictionary? decode?)
      fun d => ∀ e ∈ d.entries, InRange e.2 where
  reads {d} hd := by
    have hentries : (d.entries.map fun e => (e.1, encode e.2)).mapM (fun e => (decode? e.2).map (e.1, ·)) =
        some d.entries := mapM_map_eq_some fun e he => by rw [h.reads (hd e he), Option.map_some]
    show Option.map Dictionary.ofList _ = some d
    rw [hentries, Option.map_some, Dictionary.ofList_entries]
  inRange := by
    intro j d hj e he
    unfold dictionary? at hj
    split at hj
    · obtain ⟨es, hes, rfl⟩ := Option.map_eq_some_iff.mp hj
      obtain ⟨field, -, hfield⟩ := exists_of_mem_mapM hes (Dictionary.mem_of_mem_ofList he)
      obtain ⟨a, ha, rfl⟩ := Option.map_eq_some_iff.mp hfield
      exact h.inRange ha
    · cases hj
  ne_null _ := nofun

end Faithful

theorem faithful_texts : Faithful ofTexts (dictionary? text?) fun _ => True :=
  faithful_text.dictionary.congr fun _ => iff_of_true (fun _ _ => trivial) trivial

/-! ## §2 Fields -/

variable {j : Json} {key : String}

theorem nullable?_of_ne_null (value : Decoder α) (h : j ≠ .null) : nullable? value j = (value j).map some := by
  cases j <;> first | rfl | exact absurd rfl h

namespace Faithful

theorem required? (h : Faithful encode decode? InRange) {a : α} (hget : j.get? key = some (encode a))
    (ha : InRange a) : j.required? key decode? = some a := by
  unfold Json.required?
  rw [hget]
  exact h.reads ha

theorem optional? (h : Faithful encode decode? InRange) {o : Option α} (hget : j.get? key = o.map encode)
    (ho : ∀ a ∈ o, InRange a) : j.optional? key decode? = some o := by
  unfold Json.optional?
  rw [hget]
  cases o with
  | none => rfl
  | some a =>
    show nullable? decode? (encode a) = some (some a)
    rw [nullable?_of_ne_null decode? (h.ne_null a), h.reads (ho a rfl), Option.map_some]

theorem defaulted? (h : Faithful encode decode? InRange) {a : α} (default : α)
    (hget : j.get? key = some (encode a)) (ha : InRange a) : j.defaulted? key default decode? = some a := by
  unfold Json.defaulted?
  rw [hget]
  exact h.reads ha

/-- A value that is left out when it is the default. -/
theorem defaulted?_of_ite (h : Faithful encode decode? InRange) {a default : α} {isDefault : Bool}
    (hdefault : isDefault = true → a = default)
    (hget : j.get? key = if isDefault then none else some (encode a)) (ha : InRange a) :
    j.defaulted? key default decode? = some a := by
  cases hcase : isDefault with
  | true =>
    unfold Json.defaulted?
    rw [hget, if_pos hcase, hdefault hcase]
  | false =>
    rw [hcase, if_neg Bool.false_ne_true] at hget
    exact h.defaulted? default hget ha

end Faithful

/-! What is read of a field is in range. -/

theorem inRange_of_required? (h : Faithful encode decode? InRange) {a : α}
    (hread : j.required? key decode? = some a) : InRange a := by
  obtain ⟨v, -, hv⟩ := Option.bind_eq_some_iff.mp hread
  exact h.inRange hv

theorem inRange_of_optional? (h : Faithful encode decode? InRange) {o : Option α}
    (hread : j.optional? key decode? = some o) : ∀ a ∈ o, InRange a := by
  unfold optional? at hread
  split at hread
  · cases hread
    exact nofun
  · unfold nullable? at hread
    split at hread
    · cases hread
      exact nofun
    · obtain ⟨a, ha, rfl⟩ := Option.map_eq_some_iff.mp hread
      rintro b ⟨⟩
      exact h.inRange ha

theorem inRange_of_defaulted? (h : Faithful encode decode? InRange) {a default : α} (hdefault : InRange default)
    (hread : j.defaulted? key default decode? = some a) : InRange a := by
  unfold defaulted? at hread
  split at hread
  · cases hread
    exact hdefault
  · exact h.inRange hread

/-- An optional field is read as absent exactly if it is missing or null. -/
theorem isSome_of_optional? {decode? : Decoder α} {o : Option α} (hread : j.optional? key decode? = some o) :
    o.isSome = (j.present? key).isSome := by
  unfold optional? at hread
  unfold present?
  split at hread
  · rename_i hget
    cases hread
    rw [hget]
    rfl
  · rename_i v hget
    rw [hget]
    unfold nullable? at hread
    split at hread
    · cases hread
      rfl
    · rename_i hne
      obtain ⟨a, -, rfl⟩ := Option.map_eq_some_iff.mp hread
      split
      · rename_i heq
        exact absurd (Option.some.inj heq) hne
      · rfl

end Reaper.Json
