import Mathlib.Algebra.Group.Nat.Defs
import Mathlib.Data.Nat.Digits.Defs
import Reaper.Text.Blank
import Reaper.Text.Digits

/-!
# Digits

A digit is no other character and no blank, a number is below the power of ten that its places allow (`digitsOnto_lt`),
and a number that was written is read back, in so many places (`digitsOnto_paddedText`) and up to a limit
(`readNat?_digitsOf`). No two integers are written alike (`intText_eq_natText_iff`). What is read as an integer is a text
in decimal (`readInt?_eq_some_iff`).
-/

namespace Reaper.Text

theorem ne_of_isDigit {c d : Char} (hc : isDigit c = true) (hd : isDigit d = false) : c ≠ d := by
  rintro rfl
  exact Bool.noConfusion (hc.symm.trans hd)

theorem isBlank_of_isDigit {c : Char} (h : isDigit c = true) : isBlank c = false := by
  simp only [isDigit, Bool.and_eq_true, decide_eq_true_eq] at h
  simp [isBlank]
  omega

theorem digitValue_le {c : Char} (h : isDigit c = true) : digitValue c ≤ 9 := by
  simp only [isDigit, Bool.and_eq_true, decide_eq_true_eq] at h
  simp only [digitValue]
  omega

/-- A number has no more places than it is written with. -/
theorem digitsOnto_lt (acc : Nat) (cs : List Char) (h : cs.all isDigit = true) :
    digitsOnto acc cs < (acc + 1) * 10 ^ cs.length := by
  induction cs generalizing acc with
  | nil => simp [digitsOnto]
  | cons c rest ih =>
    obtain ⟨hc, hrest⟩ : isDigit c = true ∧ rest.all isDigit = true := by simpa using h
    have hvalue := digitValue_le hc
    calc digitsOnto acc (c :: rest)
        = digitsOnto (acc * 10 + digitValue c) rest := rfl
      _ < (acc * 10 + digitValue c + 1) * 10 ^ rest.length := ih _ hrest
      _ ≤ ((acc + 1) * 10) * 10 ^ rest.length := Nat.mul_le_mul_right _ (by omega)
      _ = (acc + 1) * 10 ^ (c :: rest).length := by rw [List.length_cons, Nat.pow_succ, Nat.mul_assoc, Nat.mul_comm 10]

theorem length_digitsOf_le {width n : Nat} (hwidth : 0 < width) (h : n < 10 ^ width) : (digitsOf n).length ≤ width := by
  induction width generalizing n with
  | zero => omega
  | succ w ih =>
    rw [digitsOf]
    split
    · simp
    · rename_i hten
      have hw : 0 < w := by
        refine Nat.pos_of_ne_zero ?_
        rintro rfl
        simp at h
        omega
      have := ih hw (n := n / 10) (by rw [Nat.pow_succ] at h; omega)
      simp
      omega

theorem length_paddedText {width n : Nat} (hwidth : 0 < width) (h : n < 10 ^ width) :
    (paddedText width n).toList.length = width := by
  have := length_digitsOf_le hwidth h
  simp [paddedText]
  omega

theorem all_isDigit_paddedText (width n : Nat) : (paddedText width n).toList.all isDigit = true := by
  have hzeros : (List.replicate (width - (digitsOf n).length) '0').all isDigit = true := by
    rw [List.all_replicate]
    simp [show isDigit '0' = true by decide]
  rw [paddedText, String.toList_ofList, List.all_append, hzeros, all_isDigit_digitsOf, Bool.and_self]

theorem digitsOnto_replicate (k : Nat) : digitsOnto 0 (List.replicate k '0') = 0 := by
  induction k with
  | zero => rfl
  | succ k ih => exact ih

theorem digitsOnto_paddedText (width n : Nat) : digitsOnto 0 (paddedText width n).toList = n := by
  rw [paddedText, String.toList_ofList, digitsOnto_append, digitsOnto_replicate, digitsOnto_digitsOf]

theorem isDigit_of_mem_digitsOf {n : Nat} {c : Char} (h : c ∈ digitsOf n) : isDigit c = true :=
  List.all_eq_true.mp (all_isDigit_digitsOf n) c h

theorem trim_digitsOf (n : Nat) : trim (digitsOf n) = digitsOf n :=
  trim_eq_self (fun _ hc => isBlank_of_isDigit (isDigit_of_mem_digitsOf (List.mem_of_head? hc)))
    (fun _ hc => isBlank_of_isDigit (isDigit_of_mem_digitsOf (List.mem_of_getLast? hc)))

theorem digitsOf_ne_cons {n : Nat} {c : Char} (hc : isDigit c = false) (rest : List Char) : digitsOf n ≠ c :: rest :=
  fun h => ne_of_isDigit (isDigit_of_mem_digitsOf (n := n) (c := c) (by simp [h])) hc rfl

/-- A number within the limit is read back. -/
theorem readNat?_digitsOf {limit n : Nat} (h : n ≤ limit) : readNat? limit (digitsOf n) = some n := by
  unfold readNat?
  split
  · exact absurd ‹_› (digitsOf_ne_cons (by decide) _)
  · simp [natOfDigits?_digitsOf, h]

theorem digitsOf_inj {m n : Nat} : digitsOf m = digitsOf n ↔ m = n :=
  ⟨fun h => by rw [← digitsOnto_digitsOf m, h, digitsOnto_digitsOf], fun h => by rw [h]⟩

/-- The text of a number is the text of no other integer. -/
theorem intText_eq_natText_iff {i : Int} {n : Nat} : intText i = natText n ↔ i = n := by
  rw [intText, ← String.toList_inj]
  split
  · rename_i hneg
    refine iff_of_false (fun h => ?_) (by omega)
    rw [natText, String.toList_ofList, String.toList_ofList] at h
    exact digitsOf_ne_cons (by decide) _ h.symm
  · rw [natText, natText, String.toList_ofList, String.toList_ofList, digitsOf_inj]
    omega

theorem toLower_of_isDigit {c : Char} (h : isDigit c = true) : c.toLower = c := by
  unfold Char.toLower
  rw [dif_neg]
  intro hrange
  have hge : 65 ≤ c.toNat := UInt32.le_iff_toNat_le.mp hrange.1
  simp only [isDigit, Bool.and_eq_true, decide_eq_true_eq] at h
  omega

/-! ## Decimal texts -/

/-- Digits, and the natural that they denote by their places. -/
structure AreDigitsOf (cs : List Char) (n : Nat) : Prop where
  nonempty : cs ≠ []
  all : ∀ c ∈ cs, isDigit c = true
  value : n = Nat.ofDigits 10 (cs.reverse.map digitValue)

/-- Digits with or without a sign, and the integer that they denote. -/
inductive IsDecimal : List Char → Int → Prop
  | unsigned {cs : List Char} {n : Nat} : AreDigitsOf cs n → IsDecimal cs n
  | plus {cs : List Char} {n : Nat} : AreDigitsOf cs n → IsDecimal ('+' :: cs) n
  | minus {cs : List Char} {n : Nat} : AreDigitsOf cs n → IsDecimal ('-' :: cs) (-n)

/-- Reading digits from the left gives each of them its place. -/
theorem digitsOnto_eq_ofDigits (acc : Nat) (cs : List Char) :
    digitsOnto acc cs = acc * 10 ^ cs.length + Nat.ofDigits 10 (cs.reverse.map digitValue) := by
  induction cs generalizing acc with
  | nil => simp [digitsOnto]
  | cons c rest ih =>
    have hstep : digitsOnto acc (c :: rest) = digitsOnto (acc * 10 + digitValue c) rest := rfl
    rw [hstep, ih, List.reverse_cons, List.map_append, Nat.ofDigits_append, List.length_map, List.length_reverse,
      List.length_cons, List.map_singleton, Nat.ofDigits_singleton, Nat.pow_succ]
    ring

theorem natOfDigits?_eq_some_iff {cs : List Char} {n : Nat} : natOfDigits? cs = some n ↔ AreDigitsOf cs n := by
  have hvalue : digitsOnto 0 cs = Nat.ofDigits 10 (cs.reverse.map digitValue) := by
    rw [digitsOnto_eq_ofDigits, Nat.zero_mul, Nat.zero_add]
  unfold natOfDigits?
  constructor
  · intro h
    split at h
    · cases h
    · rename_i hne
      split at h
      · rename_i hall
        exact ⟨by simpa using hne, List.all_eq_true.mp hall, hvalue ▸ (Option.some.inj h).symm⟩
      · cases h
  · intro h
    rw [if_neg (by simpa using h.nonempty), if_pos (List.all_eq_true.mpr h.all), h.value, hvalue]

theorem not_areDigitsOf_cons {c : Char} (hc : isDigit c = false) (rest : List Char) (n : Nat) :
    ¬ AreDigitsOf (c :: rest) n :=
  fun h => Bool.noConfusion ((h.all c List.mem_cons_self).symm.trans hc)

/-- What is read after the sign `f` and found to be in a range. -/
theorem signed_eq_some_iff (low high : Int) (f : Int → Int) (ds : List Char) (i : Int) :
    (((natOfDigits? ds).bind fun n => some (n : Int)).map f >>= fun k =>
      if low ≤ k ∧ k ≤ high then some k else none) = some i ↔
    (∃ n : Nat, AreDigitsOf ds n ∧ f n = i) ∧ low ≤ i ∧ i ≤ high := by
  rw [Option.bind_eq_bind, Option.bind_eq_some_iff]
  constructor
  · rintro ⟨k, hk, hi⟩
    simp only [Option.map_eq_some_iff, Option.bind_eq_some_iff, natOfDigits?_eq_some_iff] at hk
    obtain ⟨-, ⟨n, hn, ⟨⟩⟩, rfl⟩ := hk
    split at hi
    · rename_i hbounds
      cases hi
      exact ⟨⟨n, hn, rfl⟩, hbounds⟩
    · cases hi
  · rintro ⟨⟨n, hn, rfl⟩, hbounds⟩
    refine ⟨f n, ?_, if_pos hbounds⟩
    rw [natOfDigits?_eq_some_iff.mpr hn]
    rfl

/-- A text is read as an integer of a range exactly if it is the integer in decimal. -/
theorem readInt?_eq_some_iff {low high : Int} {cs : List Char} {i : Int} :
    readInt? low high cs = some i ↔ IsDecimal cs i ∧ low ≤ i ∧ i ≤ high := by
  unfold readInt?
  dsimp only
  split
  · rename_i rest
    refine (signed_eq_some_iff low high (fun n => -n) rest i).trans (and_congr_left' ⟨?_, ?_⟩)
    · rintro ⟨n, hn, rfl⟩
      exact .minus hn
    · intro h
      cases h with
      | unsigned h => exact absurd h (not_areDigitsOf_cons (by decide) _ _)
      | minus h => exact ⟨_, h, rfl⟩
  · rename_i rest
    refine (signed_eq_some_iff low high (fun n => n) rest i).trans (and_congr_left' ⟨?_, ?_⟩)
    · rintro ⟨n, hn, rfl⟩
      exact .plus hn
    · intro h
      cases h with
      | unsigned h => exact absurd h (not_areDigitsOf_cons (by decide) _ _)
      | plus h => exact ⟨_, h, rfl⟩
  · rename_i hminus hplus
    refine (signed_eq_some_iff low high (fun n => n) cs i).trans (and_congr_left' ⟨?_, ?_⟩)
    · rintro ⟨n, hn, rfl⟩
      exact .unsigned hn
    · intro h
      cases h with
      | unsigned h => exact ⟨_, h, rfl⟩
      | plus h => exact absurd rfl (hplus _)
      | minus h => exact absurd rfl (hminus _)

end Reaper.Text
