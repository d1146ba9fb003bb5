/-!
The Gregorian calendar, extended to all years: days are counted from the first of January of the year zero.

`daysBeforeYear` is a closed formula; `Date.ofDays` finds the year by an estimate that is off by at most one, and the
month by walking the month lengths. A day number is the day number of its date (`Date.toDays_ofDays`), which is a date of
the calendar (`Date.isValid_ofDays`).
-/

namespace Reaper

/-- A day of the calendar. -/
structure Date where
  year : Int
  month : Nat
  day : Nat
  deriving DecidableEq, Repr

namespace Date

/-- Days from the first day of the year zero to the first day of a year. -/
def daysBeforeYear (y : Int) : Int := 365 * y + (y + 3) / 4 - (y + 99) / 100 + (y + 399) / 400

/-- Years of 366 days. -/
def isLeap (y : Int) : Bool := y % 4 == 0 && (y % 100 != 0 || y % 400 == 0)

def monthLengths (leap : Bool) : List Nat :=
  [31, if leap then 29 else 28, 31, 30, 31, 30, 31, 31, 30, 31, 30, 31]

@[simp] theorem length_monthLengths (leap : Bool) : (monthLengths leap).length = 12 := rfl

def total (lens : List Nat) : Nat := lens.foldr (· + ·) 0

@[simp] theorem total_nil : total [] = 0 := rfl

@[simp] theorem total_cons (len : Nat) (rest : List Nat) : total (len :: rest) = len + total rest := rfl

/-- Days before the first of a month, counted from the first of January. -/
def daysBeforeMonth (leap : Bool) (month : Nat) : Nat := total ((monthLengths leap).take (month - 1))

/-- Walks the month lengths: the month number and the day in it. -/
def monthAndDay (month : Nat) (left : Nat) : List Nat → Nat × Nat
  | [] => (month, left + 1)
  | len :: rest => if left < len then (month, left + 1) else monthAndDay (month + 1) (left - len) rest

def toDays (d : Date) : Int :=
  daysBeforeYear d.year + daysBeforeMonth (isLeap d.year) d.month + (d.day - 1 : Nat)

/-- The year that a day falls in. -/
def yearOfDays (n : Int) : Int :=
  let y := n * 400 / 146097
  if n < daysBeforeYear y then y - 1
  else if daysBeforeYear (y + 1) ≤ n then y + 1
  else y

def ofDays (n : Int) : Date :=
  let y := yearOfDays n
  let (m, d) := monthAndDay 1 (n - daysBeforeYear y).toNat (monthLengths (isLeap y))
  ⟨y, m, d⟩

/-- The date is one of the calendar. -/
def isValid (d : Date) : Bool :=
  1 ≤ d.month && d.month ≤ 12 && 1 ≤ d.day &&
    d.day ≤ ((monthLengths (isLeap d.year))[d.month - 1]?).getD 0

/-- The day number of the first of January 1970. -/
def unixEpoch : Int := 719528

theorem daysBeforeYear_succ (y : Int) :
    daysBeforeYear (y + 1) = daysBeforeYear y + if isLeap y then 366 else 365 := by
  unfold daysBeforeYear isLeap
  by_cases h4 : y % 4 = 0 <;> by_cases h100 : y % 100 = 0 <;> by_cases h400 : y % 400 = 0 <;>
    simp [h4, h100, h400] <;> omega

/-- The closed formula stays within two days of the mean year length. -/
theorem daysBeforeYear_near (y : Int) :
    146097 * y - 288 ≤ 400 * daysBeforeYear y ∧ 400 * daysBeforeYear y ≤ 146097 * y + 591 := by
  obtain ⟨k, c, q, t, hy, hc, hq, ht⟩ : ∃ k c q t : Int, y = 400 * k + 100 * c + 4 * q + t ∧
      (0 ≤ c ∧ c ≤ 3) ∧ (0 ≤ q ∧ q ≤ 24) ∧ (0 ≤ t ∧ t ≤ 3) :=
    ⟨y / 400, y % 400 / 100, y % 400 % 100 / 4, y % 400 % 100 % 4, by omega, by omega, by omega, by omega⟩
  have h4 : (y + 3) / 4 = 100 * k + 25 * c + q + (t + 3) / 4 := by omega
  have h100 : (y + 99) / 100 = 4 * k + c + (4 * q + t + 99) / 100 := by omega
  have h400 : (y + 399) / 400 = k + (100 * c + 4 * q + t + 399) / 400 := by omega
  unfold daysBeforeYear
  omega

/-- A day lies in its year. -/
theorem yearOfDays_bounds (n : Int) :
    daysBeforeYear (yearOfDays n) ≤ n ∧ n < daysBeforeYear (yearOfDays n + 1) := by
  unfold yearOfDays
  simp only
  have below := daysBeforeYear_near (n * 400 / 146097 - 1)
  have above := daysBeforeYear_near (n * 400 / 146097 + 1 + 1)
  split
  · rw [Int.sub_add_cancel]; omega
  · split <;> omega

/-- Walking the month lengths keeps the count of days. -/
theorem monthAndDay_total (month left : Nat) (lens : List Nat) (h : left < total lens) :
    month ≤ (monthAndDay month left lens).1 ∧ 1 ≤ (monthAndDay month left lens).2 ∧
      total (lens.take ((monthAndDay month left lens).1 - month)) + ((monthAndDay month left lens).2 - 1) = left := by
  induction lens generalizing month left with
  | nil => simp at h
  | cons len rest ih =>
    rw [monthAndDay]
    split
    · simp
    · rename_i hlt
      have hr : left - len < total rest := by simp at h; omega
      obtain ⟨h1, h2, h3⟩ := ih (month + 1) (left - len) hr
      refine ⟨by omega, h2, ?_⟩
      have : (monthAndDay (month + 1) (left - len) rest).1 - month
          = (monthAndDay (month + 1) (left - len) rest).1 - (month + 1) + 1 := by omega
      rw [this, List.take_succ_cons, total_cons]
      omega

/-- A day is one of the days of its year. -/
theorem dayInYear_lt (n : Int) :
    (n - daysBeforeYear (yearOfDays n)).toNat < total (monthLengths (isLeap (yearOfDays n))) := by
  have hb := yearOfDays_bounds n
  rw [daysBeforeYear_succ] at hb
  cases h : isLeap (yearOfDays n) <;> simp [h, monthLengths] at hb ⊢ <;> omega

/-- A day number is the day number of its date. -/
theorem toDays_ofDays (n : Int) : (ofDays n).toDays = n := by
  have hb := yearOfDays_bounds n
  obtain ⟨h1, _, h3⟩ := monthAndDay_total 1 _ _ (dayInYear_lt n)
  unfold toDays ofDays daysBeforeMonth
  simp only
  omega

/-- Walking the month lengths ends in one of the months, on one of its days. -/
theorem monthAndDay_mem (month left : Nat) (lens : List Nat) (h : left < total lens) :
    ∃ len, lens[(monthAndDay month left lens).1 - month]? = some len ∧ (monthAndDay month left lens).2 ≤ len := by
  induction lens generalizing month left with
  | nil => simp at h
  | cons len rest ih =>
    rw [monthAndDay]
    split
    · rename_i hlt
      exact ⟨len, by simp, hlt⟩
    · rename_i hlt
      have hr : left - len < total rest := by simp at h; omega
      obtain ⟨found, hfound, hle⟩ := ih (month + 1) (left - len) hr
      have hge := (monthAndDay_total (month + 1) (left - len) rest hr).1
      refine ⟨found, ?_, hle⟩
      have : (monthAndDay (month + 1) (left - len) rest).1 - month
          = (monthAndDay (month + 1) (left - len) rest).1 - (month + 1) + 1 := by omega
      rw [this, List.getElem?_cons_succ, hfound]

theorem isValid_iff {d : Date} : d.isValid = true ↔ 1 ≤ d.month ∧ d.month ≤ 12 ∧ 1 ≤ d.day ∧
    d.day ≤ ((monthLengths (isLeap d.year))[d.month - 1]?).getD 0 := by
  simp only [isValid, Bool.and_eq_true, decide_eq_true_eq, and_assoc]

/-- The date of a day number is one of the calendar. -/
theorem isValid_ofDays (n : Int) : (ofDays n).isValid = true := by
  obtain ⟨hmonth, hday, -⟩ := monthAndDay_total 1 _ _ (dayInYear_lt n)
  obtain ⟨len, hlen, hle⟩ := monthAndDay_mem 1 _ _ (dayInYear_lt n)
  have htwelve := (List.getElem?_eq_some_iff.mp hlen).1
  rw [length_monthLengths] at htwelve
  have hmonths : (ofDays n).month ≤ 12 := Nat.le_of_pred_lt htwelve
  have hdays : (ofDays n).day ≤ ((monthLengths (isLeap (ofDays n).year))[(ofDays n).month - 1]?).getD 0 :=
    Nat.le_trans hle (Nat.le_of_eq (congrArg (·.getD 0) hlen).symm)
  rw [isValid_iff]
  exact ⟨hmonth, hmonths, hday, hdays⟩

end Date

end Reaper
