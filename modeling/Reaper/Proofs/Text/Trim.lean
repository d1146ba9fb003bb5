import Reaper.Text.Blank

/-!
# Trimming

What is trimmed off a text are blanks at its two ends (`exists_eq_append_trimStart`, `exists_eq_trimEnd_append`). So a
visible character is in a text when it is in what is left of it (`mem_trim_iff`), and a text that something visible
follows loses nothing but the blanks at its start (`trim_append`).
-/

namespace Reaper.Text

variable {cs ds : List Char} {c : Char}

theorem exists_eq_append_trimStart (cs : List Char) :
    ∃ blanks, (∀ c ∈ blanks, isBlank c = true) ∧ cs = blanks ++ trimStart cs :=
  ⟨cs.takeWhile isBlank, List.all_eq_true.mp List.all_takeWhile, List.takeWhile_append_dropWhile.symm⟩

theorem exists_eq_trimEnd_append (cs : List Char) :
    ∃ blanks, (∀ c ∈ blanks, isBlank c = true) ∧ cs = trimEnd cs ++ blanks := by
  induction cs with
  | nil => exact ⟨[], by simp, rfl⟩
  | cons c rest ih =>
    obtain ⟨blanks, hblanks, hrest⟩ := ih
    rw [trimEnd]
    split
    · rename_i hnil
      rw [hnil, List.nil_append] at hrest
      split
      · exact ⟨c :: blanks, List.forall_mem_cons.mpr ⟨‹_›, hblanks⟩, by rw [hrest, List.nil_append]⟩
      · exact ⟨blanks, hblanks, by rw [hrest, List.singleton_append]⟩
    · exact ⟨blanks, hblanks, by rw [List.cons_append, ← hrest]⟩

theorem mem_trim_iff (hc : isBlank c = false) : c ∈ trim cs ↔ c ∈ cs := by
  obtain ⟨before, hbefore, hstart⟩ := exists_eq_append_trimStart cs
  obtain ⟨after, hafter, hend⟩ := exists_eq_trimEnd_append (trimStart cs)
  have hnot (blanks : List Char) (h : ∀ d ∈ blanks, isBlank d = true) : c ∉ blanks := fun hmem =>
    Bool.noConfusion ((h c hmem).symm.trans hc)
  calc c ∈ trim cs ↔ c ∈ trimStart cs := by rw [hend, List.mem_append, trim, or_iff_left (hnot after hafter)]
    _ ↔ c ∈ before ++ trimStart cs := by rw [List.mem_append, or_iff_right (hnot before hbefore)]
    _ ↔ c ∈ cs := by rw [← hstart]

theorem trimStart_append (h : ∀ c, ds.head? = some c → isBlank c = false) :
    trimStart (cs ++ ds) = trimStart cs ++ ds := by
  induction cs with
  | nil =>
    cases ds with
    | nil => rfl
    | cons d rest => exact List.dropWhile_cons_of_neg (by simp [h d rfl])
  | cons c rest ih =>
    unfold trimStart at ih ⊢
    cases hc : isBlank c <;> simp [hc, ih]

/-- Blanks are trimmed off the end up to the last visible character. -/
theorem trimEnd_append_cons (cs : List Char) (hc : isBlank c = false) (ds : List Char) :
    trimEnd (cs ++ c :: ds) = cs ++ c :: trimEnd ds := by
  induction cs with
  | nil =>
    rw [List.nil_append, List.nil_append, trimEnd]
    cases trimEnd ds with
    | nil => simp [hc]
    | cons d rest => rfl
  | cons d rest ih =>
    rw [List.cons_append, trimEnd, ih]
    cases rest <;> rfl

/-- With something visible at both its ends after it, a text is only trimmed at its start. -/
theorem trim_append (hfirst : ∀ c, ds.head? = some c → isBlank c = false) (hlast : ds.getLast? = some c)
    (hc : isBlank c = false) : trim (cs ++ ds) = trimStart cs ++ ds := by
  obtain ⟨front, rfl⟩ := List.getLast?_eq_some_iff.mp hlast
  rw [trim, trimStart_append hfirst, ← List.append_assoc, trimEnd_concat _ hc]

end Reaper.Text
