import Reaper.Proofs.Text.Digits
import Reaper.Time.Rfc3339

/-!
# Timestamps, written and read

An instant at a whole second of the years 0 to 9999 is read back from its written form (`ofChars?_toSecondText`): each
number of the date and the time comes back from its places (`fixedDigits?_paddedText`), and the date and the time of day
make up the instant they were taken from (`ofLocal?_date`). A leap second is such a whole second, its seconds are 60.

  §1 Dates — the day and the time of day of an instant.
  §2 Texts — the written form.
-/

namespace Reaper

/-- No month has more than thirty-one days. -/
theorem Date.day_le {d : Date} (h : d.isValid = true) : d.day ≤ 31 := by
  have hlengths : ∀ leap, ∀ len ∈ monthLengths leap, len ≤ 31 := by decide
  obtain ⟨-, -, -, hday⟩ := isValid_iff.mp h
  cases hlen : (monthLengths (isLeap d.year))[d.month - 1]? with
  | none =>
    rw [hlen, Option.getD_none] at hday
    omega
  | some len =>
    rw [hlen, Option.getD_some] at hday
    exact Nat.le_trans hday (hlengths _ len (List.mem_of_getElem? hlen))

namespace Instant

open Text (paddedText)
open Duration (perSecond)

variable {t : Instant}

/-! ## §1 Dates -/

/-- The day that an instant falls on, in UTC. -/
def date (t : Instant) : Date := Date.ofDays (t.secs / perDay + Date.unixEpoch)

theorem isValid_date (t : Instant) : t.date.isValid = true := Date.isValid_ofDays _

/-- The seconds of the day before an instant, in UTC. -/
def secondOfDay (t : Instant) : Nat := (t.secs % perDay).toNat

/-- The second of the minute; in a leap second it is the one after that. -/
def secondOfMinute (t : Instant) : Nat := t.secondOfDay % 60 + if perSecond ≤ t.nanos then 1 else 0

/-- The instant begins a second, or the leap second at the end of a minute. -/
def IsWhole (t : Instant) : Prop := t.nanos = 0 ∨ t.nanos = perSecond ∧ t.secs % 60 = 59

instance (t : Instant) : Decidable t.IsWhole := inferInstanceAs (Decidable (_ ∨ _))

theorem secondOfDay_lt (t : Instant) : t.secondOfDay < 86400 := by
  unfold secondOfDay perDay
  omega

theorem secondOfMinute_le (t : Instant) : t.secondOfMinute ≤ 60 := by
  unfold secondOfMinute
  split <;> omega

/-- The second of the minute tells a leap second from the second before it. -/
theorem IsWhole.cases (h : t.IsWhole) :
    t.nanos = 0 ∧ t.secondOfMinute = t.secondOfDay % 60 ∨
      t.nanos = perSecond ∧ t.secondOfDay % 60 = 59 ∧ t.secondOfMinute = 60 := by
  rcases h with hnanos | ⟨hnanos, hleap⟩
  · have hplain : ¬ perSecond ≤ t.nanos := by simp [hnanos, perSecond]
    exact .inl ⟨hnanos, by rw [secondOfMinute, if_neg hplain, Nat.add_zero]⟩
  · have hlast : t.secondOfDay % 60 = 59 := by
      unfold secondOfDay perDay
      omega
    exact .inr ⟨hnanos, hlast, by rw [secondOfMinute, if_pos (Nat.le_of_eq hnanos.symm), hlast]⟩

/-- The seconds of four-digit years are representable. -/
theorem inRange_of_year (hyear : 0 ≤ t.date.year ∧ t.date.year ≤ 9999) : inRange t.secs = true := by
  have hfirst : firstSecond = -8334601228800 := by decide
  have hlast : lastSecond = 8210266876799 := by decide
  have hdays := Date.yearOfDays_bounds (t.secs / perDay + Date.unixEpoch)
  have hlow := (Date.daysBeforeYear_near t.date.year).1
  have hhigh := (Date.daysBeforeYear_near (t.date.year + 1)).2
  change Date.daysBeforeYear t.date.year ≤ _ ∧ _ < Date.daysBeforeYear (t.date.year + 1) at hdays
  simp only [perDay, Date.unixEpoch] at hdays
  simp only [inRange, Bool.and_eq_true, decide_eq_true_eq, hfirst, hlast]
  omega

/-- Date and time of day make up the instant. -/
theorem ofLocal?_date (h : t.IsWhole) (hyear : 0 ≤ t.date.year ∧ t.date.year ≤ 9999) :
    ofLocal? t.date (t.secondOfDay / 3600) (t.secondOfDay / 60 % 60) t.secondOfMinute 0 0 = some t := by
  have hday := t.secondOfDay_lt
  have hlow : firstYear ≤ t.date.year := by
    unfold firstYear
    omega
  have hhigh : t.date.year ≤ lastYear := by
    unfold lastYear
    omega
  have hhour : t.secondOfDay / 3600 ≤ 23 := by omega
  have hminute : t.secondOfDay / 60 % 60 ≤ 59 := by omega
  have hsecs : (t.date.toDays - Date.unixEpoch) * perDay +
      (((t.secondOfDay / 3600 : Nat) : Int) * 3600 + (t.secondOfDay / 60 % 60 : Nat) * 60 +
        (min t.secondOfMinute 59 : Nat)) - 0 = t.secs := by
    have hsecond := h.cases
    have hinDay : (t.secondOfDay : Int) = t.secs % perDay := Int.toNat_of_nonneg (Int.emod_nonneg _ (by decide))
    rw [date, Date.toDays_ofDays]
    simp only [perDay] at *
    omega
  have hnanos : (if t.secondOfMinute = 60 then perSecond + 0 else 0) = t.nanos := by
    have hsecond := h.cases
    split <;> omega
  unfold ofLocal?
  rw [if_pos (by simp [t.isValid_date, hlow, hhigh, hhour, hminute, t.secondOfMinute_le])]
  dsimp only
  rw [hsecs, if_pos (inRange_of_year hyear), hnanos]

/-! ## §2 Texts -/

/-- A number that was written in so many places is read from them. -/
theorem fixedDigits?_paddedText {width n : Nat} (hwidth : 0 < width) (h : n < 10 ^ width) (rest : List Char) :
    fixedDigits? width ((paddedText width n).toList ++ rest) = some (n, rest) := by
  have hlength := Text.length_paddedText hwidth h
  have htake : ((paddedText width n).toList ++ rest).take width = (paddedText width n).toList := List.take_left' hlength
  have hdrop : ((paddedText width n).toList ++ rest).drop width = rest := List.drop_left' hlength
  simp only [fixedDigits?, htake, hdrop, hlength, Text.all_isDigit_paddedText, and_self, if_true,
    Text.digitsOnto_paddedText]

theorem after?_cons (c : Char) (rest : List Char) : after? c (c :: rest) = some rest := if_pos rfl

theorem afterDateMark?_T (rest : List Char) : afterDateMark? ('T' :: rest) = some rest := rfl

theorem toList_toSecondText (hyear : 0 ≤ t.date.year ∧ t.date.year ≤ 9999) :
    t.toSecondText.toList =
      (paddedText 4 t.date.year.toNat).toList ++ '-' :: ((paddedText 2 t.date.month).toList ++
      '-' :: ((paddedText 2 t.date.day).toList ++ 'T' :: ((paddedText 2 (t.secondOfDay / 3600)).toList ++
      ':' :: ((paddedText 2 (t.secondOfDay / 60 % 60)).toList ++
      ':' :: ((paddedText 2 t.secondOfMinute).toList ++ ['Z']))))) := by
  have hyearText : yearText t.date.year = paddedText 4 t.date.year.toNat := if_pos hyear
  have htext : t.toSecondText = yearText t.date.year ++ "-" ++ paddedText 2 t.date.month ++ "-" ++
      paddedText 2 t.date.day ++ "T" ++ paddedText 2 (t.secondOfDay / 3600) ++ ":" ++
      paddedText 2 (t.secondOfDay / 60 % 60) ++ ":" ++ paddedText 2 t.secondOfMinute ++ "Z" := rfl
  simp [htext, hyearText]

/-- What is written is read back. -/
theorem ofChars?_toSecondText (h : t.IsWhole) (hyear : 0 ≤ t.date.year ∧ t.date.year ≤ 9999) :
    ofChars? t.toSecondText.toList = some t := by
  have hday := t.secondOfDay_lt
  have hyears : t.date.year.toNat < 10 ^ 4 := by omega
  have hmonths : t.date.month < 10 ^ 2 := by
    have := (Date.isValid_iff.mp t.isValid_date).2.1
    omega
  have hdays : t.date.day < 10 ^ 2 := by
    have := Date.day_le t.isValid_date
    omega
  have hhours : t.secondOfDay / 3600 < 10 ^ 2 := by omega
  have hminutes : t.secondOfDay / 60 % 60 < 10 ^ 2 := by omega
  have hseconds : t.secondOfMinute < 10 ^ 2 := by
    have := t.secondOfMinute_le
    omega
  have hlocal := ofLocal?_date h hyear
  have hdate : (⟨(t.date.year.toNat : Int), t.date.month, t.date.day⟩ : Date) = t.date := by
    rw [Int.toNat_of_nonneg hyear.1]
  rw [← hdate] at hlocal
  rw [toList_toSecondText hyear]
  refine Option.bind_eq_some_iff.mpr ⟨_, fixedDigits?_paddedText (by decide) hyears _, ?_⟩
  refine Option.bind_eq_some_iff.mpr ⟨_, after?_cons '-' _, ?_⟩
  refine Option.bind_eq_some_iff.mpr ⟨_, fixedDigits?_paddedText (by decide) hmonths _, ?_⟩
  refine Option.bind_eq_some_iff.mpr ⟨_, after?_cons '-' _, ?_⟩
  refine Option.bind_eq_some_iff.mpr ⟨_, fixedDigits?_paddedText (by decide) hdays _, ?_⟩
  refine Option.bind_eq_some_iff.mpr ⟨_, afterDateMark?_T _, ?_⟩
  refine Option.bind_eq_some_iff.mpr ⟨_, fixedDigits?_paddedText (by decide) hhours _, ?_⟩
  refine Option.bind_eq_some_iff.mpr ⟨_, after?_cons ':' _, ?_⟩
  refine Option.bind_eq_some_iff.mpr ⟨_, fixedDigits?_paddedText (by decide) hminutes _, ?_⟩
  refine Option.bind_eq_some_iff.mpr ⟨_, after?_cons ':' _, ?_⟩
  refine Option.bind_eq_some_iff.mpr ⟨_, fixedDigits?_paddedText (by decide) hseconds _, ?_⟩
  refine Option.bind_eq_some_iff.mpr ⟨(0, ['Z']), rfl, ?_⟩
  refine Option.bind_eq_some_iff.mpr ⟨(0, []), rfl, ?_⟩
  exact hlocal

/-- A written instant has no blanks at its ends. -/
theorem trim_toSecondText (hyear : 0 ≤ t.date.year ∧ t.date.year ≤ 9999) :
    Text.trim t.toSecondText.toList = t.toSecondText.toList := by
  have hlength : (paddedText 4 t.date.year.toNat).toList.length = 4 := Text.length_paddedText (by decide) (by omega)
  have hdigits := Text.all_isDigit_paddedText 4 t.date.year.toNat
  have hlast : t.toSecondText.toList.getLast? = some 'Z' := by simp [toSecondText]
  refine Text.trim_eq_self (fun c hc => ?_) (fun c hc => ?_)
  · rw [toList_toSecondText hyear] at hc
    cases hyears : (paddedText 4 t.date.year.toNat).toList with
    | nil => simp [hyears] at hlength
    | cons d rest =>
      obtain rfl : d = c := by simpa [hyears] using hc
      rw [hyears, List.all_cons, Bool.and_eq_true] at hdigits
      exact Text.isBlank_of_isDigit hdigits.1
  · obtain rfl : 'Z' = c := by simpa [hlast] using hc
    decide

end Instant

end Reaper
