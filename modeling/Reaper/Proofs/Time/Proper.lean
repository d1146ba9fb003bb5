import Reaper.Proofs.Json.Objects
import Reaper.Proofs.Text.Digits
import Reaper.Proofs.Time.Sums
import Reaper.Resource
import Reaper.View

/-!
# What is read is an instant

Every timestamp that is read lies in a representable year and within its second or the leap second after it: the
timestamps of fields (`isProper_ofChars?`, `Json.isProper_asInstant?`), those of the metadata
(`isProper_ofLenientChars?`), and so the creation times of resources (`Resource.hasProperTime_of_decode?`).
-/

namespace Reaper

namespace Instant

open Duration (perSecond)

variable {t : Instant}

theorem isProper_ofUnix? {secs : Int} (h : ofUnix? secs = some t) : t.IsProper := by
  unfold ofUnix? at h
  split at h
  · rename_i hrange
    cases h
    exact ⟨hrange, Nat.mul_pos (by decide) (by decide)⟩
  · simp at h

theorem isProper_ofLocal? {date : Date} {hour minute second fraction : Nat} {offset : Int} (hfraction : fraction < perSecond)
    (h : ofLocal? date hour minute second fraction offset = some t) : t.IsProper := by
  unfold ofLocal? at h
  split at h
  · dsimp only at h
    split at h
    · rename_i hrange
      cases h
      refine ⟨hrange, ?_⟩
      dsimp only
      split <;> omega
    · simp at h
  · simp at h

/-- A fraction is less than a second. -/
theorem fraction?_lt {cs rest : List Char} {fraction : Nat} (h : fraction? cs = some (fraction, rest)) :
    fraction < perSecond := by
  unfold fraction? at h
  split at h
  · rename_i written
    dsimp only at h
    split at h
    · simp at h
    · obtain ⟨rfl, -⟩ := Prod.mk.inj (Option.some.inj h)
      have hdigits : ((written.takeWhile Text.isDigit ++ List.replicate 9 '0').take 9).all Text.isDigit = true := by
        refine List.all_eq_true.mpr fun c hc => ?_
        rcases List.mem_append.mp (List.mem_of_mem_take hc) with hc | hc
        · exact List.all_eq_true.mp List.all_takeWhile c hc
        · rw [List.eq_of_mem_replicate hc]
          decide
      have hlength : ((written.takeWhile Text.isDigit ++ List.replicate 9 '0').take 9).length = 9 := by simp
      have := Text.digitsOnto_lt 0 _ hdigits
      rwa [hlength] at this
  · obtain ⟨rfl, -⟩ := Prod.mk.inj (Option.some.inj h)
    decide

theorem isProper_ofChars? {cs : List Char} (h : ofChars? cs = some t) : t.IsProper := by
  simp only [ofChars?, Option.bind_eq_bind, Option.bind_eq_some_iff] at h
  obtain ⟨_, _, _, _, _, _, _, _, _, _, _, _, _, _, _, _, _, _, _, _, _, _, ⟨fraction, _⟩, hfraction, _, _, h⟩ := h
  split at h
  · exact isProper_ofLocal? (fraction?_lt hfraction) h
  · simp at h

theorem isProper_ofLenientChars? {cs : List Char} (h : ofLenientChars? cs = some t) : t.IsProper := by
  simp only [ofLenientChars?, Option.bind_eq_bind, Option.bind_eq_some_iff] at h
  obtain ⟨_, _, _, _, _, _, _, _, _, _, _, _, _, _, _, _, _, _, _, _, _, _, ⟨fraction, _⟩, hfraction, _, _, h⟩ := h
  split at h
  · exact isProper_ofLocal? (fraction?_lt hfraction) h
  · simp at h

end Instant

namespace Json

/-- Whatever instant a value is taken for. -/
theorem isProper_asInstant? {j : Json} {t : Instant} (h : j.asInstant? = some t) : t.IsProper := by
  unfold asInstant? at h
  rcases Option.or_eq_some_iff.mp h with h | ⟨-, h⟩
  · cases j with
    | string s => exact Instant.isProper_ofChars? h
    | _ => simp at h
  · obtain ⟨secs, -, hsecs⟩ := Option.bind_eq_some_iff.mp h
    exact Instant.isProper_ofUnix? hsecs

/-- A field that is read has its value from one of its occurrences. -/
theorem exists_of_lastOf? {α : Type} {key : String} {value : Decoder α} {j : Json} {a : α}
    (h : j.lastOf? key value = some (some a)) : ∃ v, value v = some a := by
  obtain ⟨found, hfound, hlast⟩ := Option.map_eq_some_iff.mp h
  have hmem : some a ∈ found := List.mem_of_getLast? (Option.join_eq_some_iff.mp hlast)
  obtain ⟨v, -, hv⟩ := exists_of_mem_mapM hfound hmem
  refine ⟨v, ?_⟩
  unfold nullable? at hv
  split at hv
  · simp at hv
  · simpa using hv

end Json

namespace Resource

/-- What the resource says of its creation is an instant. -/
def HasProperTime (r : Resource) : Prop := ∀ t, r.metadata.creationTimestamp = some t → t.IsProper

theorem isProper_of_decode? {j : Json} {m : Metadata} (h : Metadata.decode? j = some m) {t : Instant}
    (ht : m.creationTimestamp = some t) : t.IsProper := by
  cases j with
  | object fields =>
    -- the creation time is the ninth of fifteen fields
    unfold Metadata.decode? at h
    iterate 8 obtain ⟨_, -, h⟩ := Option.bind_eq_some_iff.mp h
    obtain ⟨created, hcreated, h⟩ := Option.bind_eq_some_iff.mp h
    iterate 6 obtain ⟨_, -, h⟩ := Option.bind_eq_some_iff.mp h
    cases h
    obtain rfl : created = some t := ht
    obtain ⟨v, hv⟩ := Json.exists_of_lastOf? hcreated
    obtain ⟨s, -, hs⟩ := Option.bind_eq_some_iff.mp hv
    exact Instant.isProper_ofLenientChars? hs
  | _ => simp [Metadata.decode?] at h

/-- So it is with every resource that is read. -/
theorem hasProperTime_of_decode? {j : Json} {r : Resource} (h : decode? j = some r) : r.HasProperTime := by
  intro t ht
  simp only [decode?, Option.bind_eq_bind, Option.bind_eq_some_iff] at h
  obtain ⟨⟨record, type, others⟩, -, m, hm, heq⟩ := h
  cases heq
  unfold Json.defaulted? at hm
  split at hm
  · cases hm
    simp at ht
  · exact isProper_of_decode? hm ht

end Resource

end Reaper
