import Reaper.Time.Instant

/-!
# Sums of instants and seconds

From within a leap second the seconds that come later are counted from the second before it, and the earlier ones from
the second after it. This module says what a sum is without saying how it is found: on the line of nanoseconds that has
the leap second of the base, and no other one, base and sum are so many seconds apart (`IsSum`). A sum is found exactly
if there is one (`addSeconds?_eq_some_iff`), there is no more than one, and sums are in the order of their seconds
(`IsSum.lt`).

  §1 Order — instants before and after each other.
  §2 Line  — the places of instants, with one leap second.
  §3 Sums  — what is found is the sum.
-/

namespace Reaper.Instant

open Duration (perSecond)

variable {a b c base t u : Instant} {s s' : Int}

/-! ## §1 Order -/

theorem lt_iff : a < b ↔ a.secs < b.secs ∨ a.secs = b.secs ∧ a.nanos < b.nanos := Iff.rfl

theorem le_iff : a ≤ b ↔ a.secs < b.secs ∨ a.secs = b.secs ∧ a.nanos ≤ b.nanos := by
  have h : a ≤ b ↔ ¬ b < a := Iff.rfl
  rw [h, lt_iff]
  omega

protected theorem le_refl (a : Instant) : a ≤ a := le_iff.mpr (.inr ⟨rfl, Nat.le_refl _⟩)

protected theorem le_trans (hab : a ≤ b) (hbc : b ≤ c) : a ≤ c := by
  rw [le_iff] at *
  omega

protected theorem le_of_lt (h : a < b) : a ≤ b := by
  rw [lt_iff] at h
  rw [le_iff]
  omega

/-! ## §2 The line of nanoseconds -/

/-- The instant lies in a leap second. -/
def IsLeap (t : Instant) : Prop := perSecond ≤ t.nanos

instance (t : Instant) : Decidable t.IsLeap := inferInstanceAs (Decidable (_ ≤ _))

/-- An instant of the representable years, within its second or the leap second after that. -/
def IsProper (t : Instant) : Prop := inRange t.secs = true ∧ t.nanos < 2 * perSecond

instance (t : Instant) : Decidable t.IsProper := inferInstanceAs (Decidable (_ ∧ _))

/-- Where an instant lies on the line that has the leap second of `base`, if there is one, and no other. -/
def place (base t : Instant) : Int :=
  t.secs * perSecond + t.nanos + if base.IsLeap ∧ base.secs < t.secs then (perSecond : Int) else 0

/-- The instant is on that line: within its second, or within the leap second of `base`. -/
structure IsOnLine (base t : Instant) : Prop where
  nanos : t.nanos < 2 * perSecond
  leap : t.IsLeap → base.IsLeap ∧ t.secs = base.secs

/-- The line goes through the instants in their order. -/
theorem place_lt_iff (ht : base.IsOnLine t) (hu : base.IsOnLine u) : place base t < place base u ↔ t < u := by
  obtain ⟨htnanos, htleap⟩ := ht
  obtain ⟨hunanos, huleap⟩ := hu
  rw [lt_iff]
  unfold place
  split <;> split <;> (simp only [IsLeap, perSecond] at *; omega)

theorem eq_of_place_eq (ht : base.IsOnLine t) (hu : base.IsOnLine u) (h : place base t = place base u) : t = u := by
  have htu := place_lt_iff ht hu
  have hut := place_lt_iff hu ht
  rw [h, lt_iff] at htu hut
  obtain ⟨hsecs, hnanos⟩ : t.secs = u.secs ∧ t.nanos = u.nanos := by omega
  cases t
  cases u
  simp_all

/-! ## §3 Sums -/

/-- The representable instant that lies `s` seconds after `base`. -/
structure IsSum (base : Instant) (s : Int) (t : Instant) : Prop where
  inRange : inRange t.secs = true
  isOnLine : base.IsOnLine t
  apart : place base t = place base base + s * perSecond

/-- Later seconds are later instants. -/
theorem IsSum.lt (ht : base.IsSum s t) (hu : base.IsSum s' u) (h : s < s') : t < u := by
  rw [← place_lt_iff ht.isOnLine hu.isOnLine, ht.apart, hu.apart]
  simp only [perSecond]
  omega

theorem IsSum.unique (ht : base.IsSum s t) (hu : base.IsSum s u) : t = u :=
  eq_of_place_eq ht.isOnLine hu.isOnLine (ht.apart.trans hu.apart.symm)

theorem IsSum.le (ht : base.IsSum s t) (hu : base.IsSum s' u) (h : s ≤ s') : t ≤ u := by
  rcases Int.lt_or_eq_of_le h with hlt | rfl
  · exact Instant.le_of_lt (ht.lt hu hlt)
  · rw [ht.unique hu]
    exact Instant.le_refl u

/-- The instant that lies `s` seconds after `base`, representable or not. -/
def sumAt (base : Instant) (s : Int) : Instant :=
  if base.IsLeap ∧ s ≠ 0 then ⟨if 0 < s then base.secs + s else base.secs + 1 + s, base.nanos - perSecond⟩
  else ⟨base.secs + s, base.nanos⟩

theorem isOnLine_sumAt (h : base.IsProper) (s : Int) : base.IsOnLine (base.sumAt s) := by
  have hnanos := h.2
  unfold sumAt
  constructor
  · split <;> (simp only [perSecond] at *; omega)
  · split <;> (simp only [IsLeap, perSecond] at *; omega)

theorem place_sumAt (h : base.IsProper) (s : Int) : place base (base.sumAt s) = place base base + s * perSecond := by
  have hnanos := h.2
  unfold place sumAt
  split
  · split <;> split <;> split <;> (simp only [IsLeap, perSecond] at *; omega)
  · split <;> split <;> (simp only [IsLeap, perSecond] at *; omega)

/-- The sum is found in that instant, if it is representable. -/
theorem addSeconds?_eq (h : base.IsProper) (s : Int) :
    base.addSeconds? s = if Instant.inRange (base.sumAt s).secs then some (base.sumAt s) else none := by
  obtain ⟨hrange, hnanos⟩ := h
  have hdiv : (s * (perSecond : Int)).tdiv perSecond = s := Int.mul_tdiv_cancel _ (by decide)
  have hmod : (s * (perSecond : Int)).tmod perSecond = 0 := Int.mul_tmod_left ..
  by_cases hleap : perSecond ≤ base.nanos
  · have hcarry : ((base.nanos : Int) - perSecond) / perSecond = 0 := by
      simp only [perSecond] at *
      omega
    have hrest : ((base.nanos : Int) % perSecond).toNat = base.nanos - perSecond := by
      simp only [perSecond] at *
      omega
    rcases Int.lt_trichotomy s 0 with hs | rfl | hs
    · have hneg : ¬ 0 < s ∧ ¬ 0 ≤ s ∧ s ≠ 0 := by omega
      simp [addSeconds?, add?, sumAt, IsLeap, hdiv, hmod, hleap, hcarry, hrest, hneg]
    · simp [addSeconds?, add?, sumAt, IsLeap, hleap, hrange]
    · have hne : s ≠ 0 := by omega
      simp [addSeconds?, add?, sumAt, IsLeap, hdiv, hmod, hleap, hcarry, hrest, hs, hne]
  · have hcarry : (base.nanos : Int) / perSecond = 0 := by
      simp only [perSecond] at *
      omega
    have hrest : ((base.nanos : Int) % perSecond).toNat = base.nanos := by
      simp only [perSecond] at *
      omega
    simp [addSeconds?, add?, sumAt, IsLeap, hdiv, hmod, hleap, hcarry, hrest]

/-- What is found is the sum, and it is found if there is one. -/
theorem addSeconds?_eq_some_iff (h : base.IsProper) : base.addSeconds? s = some t ↔ base.IsSum s t := by
  rw [addSeconds?_eq h]
  constructor
  · intro hsum
    split at hsum
    · rename_i hrange
      cases hsum
      exact ⟨hrange, isOnLine_sumAt h s, place_sumAt h s⟩
    · simp at hsum
  · rintro ⟨hrange, honline, hapart⟩
    obtain rfl : t = base.sumAt s := eq_of_place_eq honline (isOnLine_sumAt h s) (hapart.trans (place_sumAt h s).symm)
    rw [if_pos hrange]

end Reaper.Instant
