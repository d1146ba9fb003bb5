import Reaper.Proofs.Path.Addresses
import Reaper.Proofs.Text.Trim

/-!
# Beginnings of paths

A path is read one character at a time (`Reader.advance?`), so what follows a beginning is read from where the
beginning has left the reader (`scan_append`). That depends on the characters of a key only where they are special:
readers that stand alike go on alike, whatever they have read before (`Reader.Trails`).

A prefix is a text that is a path, and that more may be added to (`IsPrefix`). In what is added to, the blanks, braces
and dollar sign that a path is stripped of may be characters of keys, but that moves no end of a key: the reader is still
in a key, or between steps, when it has read a prefix (`IsPrefix.exists_beginsAs`).

  §1 Readers       — one character, and a text.
  §2 Late readers  — readers that have less behind them.
  §3 Bodies        — what is taken off a path, and off the beginning of one.
  §4 Prefixes      — what a text is read as when a path begins with it.
  §5 Continuations — what follows a prefix, with and without braces around the whole.
-/

namespace Reaper.Path

open Text (isBlank trim trimStart trimEnd)

variable {raw : String} {steps done : List Step} {current cs ds : List Char} {c : Char}

/-! ## §1 Readers -/

/-- Where the reader stands, and the steps that it has read. -/
abbrev Reader := Mode × List Step

/-- The reader at the start of a path. -/
def Reader.start : Reader := (.word [] false, [])

/-- What a character does to the reader, unless it is a dot right after a dot. -/
def Reader.advance? : Reader → Char → Option Reader
  | (.word current afterDot, steps), c =>
    if c = '.' then if afterDot then none else some (.word [] true, flush steps current)
    else if c = '\\' then some (.escape current, steps)
    else if c = '[' then some (.bracket [], flush steps current)
    else some (.word (current ++ [c]) false, steps)
  | (.escape current, steps), c => some (.word (current ++ [c]) false, steps)
  | (.bracket inner, steps), c =>
    if c = ']' then some (.word [] false, steps ++ [bracketStep (trim inner)])
    else some (.bracket (inner ++ [c]), steps)

/-- What a text does to the reader. -/
def Reader.run? (r : Reader) (cs : List Char) : Option Reader := cs.foldlM advance? r

theorem scan_cons (raw : String) (r : Reader) (c : Char) (rest : List Char) :
    scan raw r.1 r.2 (c :: rest) =
      match r.advance? c with
      | some r' => scan raw r'.1 r'.2 rest
      | none => .error (.emptyStep raw) := by
  obtain ⟨mode, steps⟩ := r
  cases mode with
  | word current afterDot =>
    by_cases hdot : c = '.'
    · cases afterDot <;> simp [scan, Reader.advance?, hdot]
    by_cases hslash : c = '\\'
    · simp [scan, Reader.advance?, hslash]
    by_cases hbracket : c = '[' <;> simp [scan, Reader.advance?, hdot, hslash, hbracket]
  | escape current => rfl
  | bracket inner =>
    simp only [scan, Reader.advance?]
    split <;> rfl

/-- A text is read, and then what follows it. -/
theorem scan_append (raw : String) (r : Reader) (cs ds : List Char) :
    scan raw r.1 r.2 (cs ++ ds) =
      match r.run? cs with
      | some r' => scan raw r'.1 r'.2 ds
      | none => .error (.emptyStep raw) := by
  induction cs generalizing r with
  | nil => rfl
  | cons c rest ih =>
    rw [List.cons_append, scan_cons, Reader.run?, List.foldlM_cons]
    cases r.advance? c with
    | none => rfl
    | some r' => exact ih r'

namespace Reader

variable {r r' s s' : Reader}

theorem run?_append (r : Reader) (cs ds : List Char) : r.run? (cs ++ ds) = (r.run? cs).bind (·.run? ds) :=
  List.foldlM_append

theorem length_flush_le (steps : List Step) (current : List Char) : steps.length ≤ (flush steps current).length := by
  unfold flush
  split <;> simp

/-- No step that was read is given up. -/
theorem length_le_of_advance? (h : r.advance? c = some r') : r.2.length ≤ r'.2.length := by
  obtain ⟨mode, steps⟩ := r
  have hflush := length_flush_le steps
  cases mode <;> simp only [advance?] at h <;> repeat' split at h
  all_goals cases h
  all_goals simp [hflush]

theorem length_le_of_run? (h : r.run? cs = some r') : r.2.length ≤ r'.2.length := by
  induction cs generalizing r with
  | nil =>
    cases h
    exact Nat.le_refl _
  | cons c rest ih =>
    obtain ⟨s, hs, hrest⟩ := Option.bind_eq_some_iff.mp h
    exact Nat.le_trans (length_le_of_advance? hs) (ih hrest)

/-- Plain characters are added to the key. -/
theorem run?_of_plain (h : ∀ c ∈ cs, isSpecial c = false) (current : List Char) (steps : List Step) :
    run? (.word current false, steps) cs = some (.word (current ++ cs) false, steps) := by
  induction cs generalizing current with
  | nil => simp [run?]
  | cons c rest ih =>
    obtain ⟨hc, hrest⟩ := List.forall_mem_cons.mp h
    have hplain : c ≠ '.' ∧ c ≠ '\\' ∧ c ≠ '[' := by simpa [isSpecial, and_assoc] using hc
    have hstep : advance? (.word current false, steps) c = some (.word (current ++ [c]) false, steps) := by
      simp [advance?, hplain]
    rw [run?, List.foldlM_cons, hstep]
    refine (ih hrest (current ++ [c])).trans ?_
    rw [List.append_assoc, List.singleton_append]

/-! ## §2 Late readers -/

/-- A reader that stands where another stands, but has less behind it. -/
inductive Trails : Reader → Reader → Prop
  | word {current current' : List Char} {afterDot : Bool} {steps steps' : List Step} (hcurrent : current' <:+ current)
      (hsteps : steps'.length ≤ steps.length) : Trails (.word current' afterDot, steps') (.word current afterDot, steps)
  | escape {current current' : List Char} {steps steps' : List Step} (hcurrent : current' <:+ current)
      (hsteps : steps'.length ≤ steps.length) : Trails (.escape current', steps') (.escape current, steps)
  | bracket {inner : List Char} {steps steps' : List Step} (hsteps : steps'.length ≤ steps.length) :
      Trails (.bracket inner, steps') (.bracket inner, steps)

theorem length_flush_mono {current current' : List Char} {steps steps' : List Step} (hcurrent : current' <:+ current)
    (hsteps : steps'.length ≤ steps.length) : (flush steps' current').length ≤ (flush steps current).length := by
  unfold flush
  split <;> split
  · exact hsteps
  · simp; omega
  · rename_i hne hnil
    rw [List.isEmpty_iff] at hnil
    subst hnil
    simp [List.suffix_nil.mp hcurrent] at hne
  · simpa using hsteps

theorem suffix_concat {current current' : List Char} (h : current' <:+ current) (c : Char) :
    current' ++ [c] <:+ current ++ [c] := by
  obtain ⟨front, rfl⟩ := h
  exact ⟨front, by simp⟩

/-- A character does the same to both. -/
theorem Trails.advance? (h : Trails r' r) (c : Char) : Option.Rel Trails (r'.advance? c) (r.advance? c) := by
  cases h with
  | word hcurrent hsteps =>
    have hflush := length_flush_mono hcurrent hsteps
    simp only [Reader.advance?]
    repeat' split
    · exact .none
    · exact .some (.word (List.suffix_refl _) hflush)
    · exact .some (.escape hcurrent hsteps)
    · exact .some (.bracket hflush)
    · exact .some (.word (suffix_concat hcurrent c) hsteps)
  | escape hcurrent hsteps => exact .some (.word (suffix_concat hcurrent c) hsteps)
  | bracket hsteps =>
    simp only [Reader.advance?]
    split
    · exact .some (.word (List.suffix_refl _) (by simpa using hsteps))
    · exact .some (.bracket hsteps)

theorem Trails.run? (h : Trails r' r) (cs : List Char) : Option.Rel Trails (r'.run? cs) (r.run? cs) := by
  induction cs generalizing r' r with
  | nil => exact .some h
  | cons c rest ih =>
    rw [Reader.run?, Reader.run?, List.foldlM_cons, List.foldlM_cons]
    have hstep := h.advance? c
    revert hstep
    cases r'.advance? c <;> cases r.advance? c <;> intro hstep <;> cases hstep
    · exact .none
    · exact ih ‹_›

theorem Trails.exists_ahead (h : Trails r' r) (hrun : r'.run? cs = some s') : ∃ s, r.run? cs = some s ∧ Trails s' s := by
  have hrel := h.run? cs
  rw [hrun] at hrel
  generalize r.run? cs = ahead at hrel ⊢
  cases hrel with
  | some htrails => exact ⟨_, rfl, htrails⟩

theorem Trails.exists_behind (h : Trails r' r) (hrun : r.run? cs = some s) : ∃ s', r'.run? cs = some s' ∧ Trails s' s := by
  have hrel := h.run? cs
  rw [hrun] at hrel
  generalize r'.run? cs = behind at hrel ⊢
  cases hrel with
  | some htrails => exact ⟨_, rfl, htrails⟩

/-- The reader is in a key or between steps, perhaps after a backslash, where a path may end. -/
def MayEnd (r : Reader) : Prop :=
  match r.1 with
  | .word _ afterDot => afterDot = false
  | .escape _ => True
  | .bracket _ => False

theorem exists_mayEnd_of_scan (h : scan raw (.word [] false) [] cs = .ok steps) : ∃ r, start.run? cs = some r ∧ r.MayEnd := by
  have hend := scan_append raw start cs []
  rw [List.append_nil, start, h] at hend
  cases hread : start.run? cs with
  | none =>
    rw [← start, hread] at hend
    cases hend
  | some r =>
    rw [← start, hread] at hend
    refine ⟨r, rfl, ?_⟩
    obtain ⟨mode, done⟩ := r
    cases mode with
    | word current afterDot =>
      cases afterDot with
      | true => cases hend
      | false => exact rfl
    | escape current => exact True.intro
    | bracket inner => cases hend

theorem Trails.mayEnd (h : Trails r' r) (hr' : r'.MayEnd) : r.MayEnd := by
  cases h <;> exact hr'

/-- It may end after more plain characters. -/
theorem MayEnd.exists_run? (hr : r.MayEnd) (h : ∀ c ∈ cs, isSpecial c = false) : ∃ s, r.run? cs = some s ∧ s.MayEnd := by
  obtain ⟨mode, steps⟩ := r
  cases mode with
  | word current afterDot =>
    obtain rfl : afterDot = false := hr
    exact ⟨_, run?_of_plain h current steps, rfl⟩
  | escape current =>
    cases cs with
    | nil => exact ⟨_, rfl, hr⟩
    | cons c rest => exact ⟨_, run?_of_plain (List.forall_mem_cons.mp h).2 _ steps, rfl⟩
  | bracket inner => exact hr.elim

end Reader

/-! ## §3 Bodies -/

/-- A text without a dollar sign at its start. -/
def dropDollar : List Char → List Char
  | '$' :: rest => rest
  | cs => cs

theorem dropDollar_append (h : ds.head? ≠ some '$') : dropDollar (cs ++ ds) = dropDollar cs ++ ds := by
  cases cs with
  | nil =>
    cases ds with
    | nil => rfl
    | cons d rest =>
      have hd : d ≠ '$' := by simpa using h
      simp [dropDollar, hd]
  | cons c rest =>
    by_cases hc : c = '$' <;> simp [dropDollar, hc]

theorem body_eq (cs : List Char) :
    body cs = dropDollar (match between? '\x7b' '\x7d' (trim cs) with
      | some inside => trim inside
      | none => trim cs) := rfl

theorem isBlank_of_isSpecial (h : isSpecial c = true) : isBlank c = false := by
  have hc : c = '.' ∨ c = '\\' ∨ c = '[' := by simpa [isSpecial, or_assoc] using h
  rcases hc with rfl | rfl | rfl <;> decide

theorem isSpecial_of_isBlank (h : isBlank c = true) : isSpecial c = false := by
  cases hspecial : isSpecial c with
  | false => rfl
  | true => exact absurd h (by simp [isBlank_of_isSpecial hspecial])

/-- What a text contributes to the body of a path that it begins. -/
def opening (cs : List Char) : List Char := dropDollar (trimStart cs)

/-- A dollar sign is plain. -/
theorem exists_eq_append_dropDollar (cs : List Char) :
    ∃ front, (∀ c ∈ front, isSpecial c = false) ∧ cs = front ++ dropDollar cs := by
  cases cs with
  | nil => exact ⟨[], by simp, rfl⟩
  | cons c rest =>
    by_cases hc : c = '$'
    · exact ⟨['$'], by simp; decide, by simp [dropDollar, hc]⟩
    · exact ⟨[], by simp, by simp [dropDollar, hc]⟩

theorem exists_eq_append_opening (cs : List Char) :
    ∃ front, (∀ c ∈ front, isSpecial c = false) ∧ cs = front ++ opening cs := by
  obtain ⟨blanks, hblanks, hcs⟩ := Text.exists_eq_append_trimStart cs
  obtain ⟨front, hfront, htrim⟩ := exists_eq_append_dropDollar (trimStart cs)
  refine ⟨blanks ++ front, ?_, by rw [List.append_assoc, opening, ← htrim, ← hcs]⟩
  exact List.forall_mem_append.mpr ⟨fun c hc => isSpecial_of_isBlank (hblanks c hc), hfront⟩

theorem eq_of_between? {first last : Char} {inside : List Char} (h : between? first last cs = some inside) :
    cs = first :: (inside ++ [last]) := by
  cases cs with
  | nil => cases h
  | cons c rest =>
    simp only [between?] at h
    split at h
    · rename_i hends
      obtain ⟨front, rfl⟩ := List.getLast?_eq_some_iff.mp hends.2
      obtain rfl : front = inside := by simpa using h
      rw [hends.1]
    · cases h

/-- Around its body, a path has plain characters. -/
theorem exists_opening_eq (cs : List Char) :
    ∃ front back, (∀ c ∈ front, isSpecial c = false) ∧ (∀ c ∈ back, isSpecial c = false) ∧
      opening cs = front ++ body cs ++ back := by
  obtain ⟨blanks, hblanks, htrim⟩ := Text.exists_eq_trimEnd_append (trimStart cs)
  have hplain : ∀ c ∈ blanks, isSpecial c = false := fun c hc => isSpecial_of_isBlank (hblanks c hc)
  have hdollar : blanks.head? ≠ some '$' := fun h =>
    absurd (hblanks '$' (List.mem_of_head? h)) (by decide)
  have hopening : opening cs = dropDollar (trim cs) ++ blanks := by
    rw [opening, htrim, dropDollar_append hdollar, trim]
  rw [hopening, body_eq]
  split
  · rename_i inside hbetween
    obtain ⟨before, hbefore, hstart⟩ := Text.exists_eq_append_trimStart inside
    obtain ⟨after, hafter, hend⟩ := Text.exists_eq_trimEnd_append (trimStart inside)
    obtain ⟨front, hfront, hinside⟩ := exists_eq_append_dropDollar (trim inside)
    have hbrace : isSpecial '\x7b' = false ∧ isSpecial '\x7d' = false := by decide
    refine ⟨'\x7b' :: (before ++ front), after ++ '\x7d' :: blanks, ?_, ?_, ?_⟩
    · exact List.forall_mem_cons.mpr ⟨hbrace.1, List.forall_mem_append.mpr
        ⟨fun c hc => isSpecial_of_isBlank (hbefore c hc), hfront⟩⟩
    · exact List.forall_mem_append.mpr ⟨fun c hc => isSpecial_of_isBlank (hafter c hc),
        List.forall_mem_cons.mpr ⟨hbrace.2, hplain⟩⟩
    · have hsplit : inside = before ++ (front ++ dropDollar (trim inside) ++ after) := by
        rw [← hinside, trim, ← hend, ← hstart]
      rw [eq_of_between? hbetween]
      conv => lhs; rw [hsplit]
      simp [dropDollar]
  · exact ⟨[], blanks, by simp, hplain, by simp⟩

/-! ## §4 Prefixes -/

/-- The number of backslashes that a text ends with, counted from the last other character. -/
def trailing (cs : List Char) : Nat := cs.foldl (fun n c => if c = '\\' then n + 1 else 0) 0

theorem trailing_append (h : ∀ c ∈ cs, isSpecial c = false) (ds : List Char) : trailing (cs ++ ds) = trailing ds := by
  unfold trailing
  rw [List.foldl_append]
  congr 1
  induction cs with
  | nil => rfl
  | cons c rest ih =>
    obtain ⟨hc, hrest⟩ := List.forall_mem_cons.mp h
    have hslash : c ≠ '\\' := by
      rintro rfl
      exact absurd hc (by decide)
    rw [List.foldl_cons, if_neg hslash]
    exact ih hrest

namespace Reader

variable {r r' : Reader} {n : Nat}

/-- After `n` backslashes the reader waits for a character if they are odd in number, unless it is in a bracket. -/
def Waits (r : Reader) (n : Nat) : Prop :=
  match r.1 with
  | .word _ _ => n % 2 = 0
  | .escape _ => n % 2 = 1
  | .bracket _ => True

theorem Waits.advance? (h : r.Waits n) (hr : r.advance? c = some r') : r'.Waits (if c = '\\' then n + 1 else 0) := by
  obtain ⟨mode, steps⟩ := r
  cases mode with
  | word current afterDot =>
    have heven : n % 2 = 0 := h
    simp only [Reader.advance?] at hr
    repeat' split at hr
    all_goals cases hr
    all_goals simp_all [Waits]
    omega
  | escape current =>
    have hodd : n % 2 = 1 := h
    cases hr
    change (if c = '\\' then n + 1 else 0) % 2 = 0
    split <;> omega
  | bracket inner =>
    simp only [Reader.advance?] at hr
    split at hr
    · rename_i hclose
      cases hr
      simp [Waits, hclose]
    · cases hr
      trivial

theorem Waits.run? (h : r.Waits n) (hr : r.run? cs = some r') :
    r'.Waits (cs.foldl (fun n c => if c = '\\' then n + 1 else 0) n) := by
  induction cs generalizing r n with
  | nil =>
    cases hr
    exact h
  | cons c rest ih =>
    obtain ⟨s, hs, hrest⟩ := Option.bind_eq_some_iff.mp hr
    exact ih (h.advance? hs) hrest

theorem waits_of_run? (hr : start.run? cs = some r) : r.Waits (trailing cs) :=
  (show start.Waits 0 from rfl).run? hr

end Reader

/-- A text that a path can begin with: it is a path, or stands for the whole document, and no backslash at its end waits
for a character. -/
structure IsPrefix (p : String) : Prop where
  reads : (∃ path, parse p = .ok path) ∨ body p.toList = []
  complete : trailing p.toList % 2 = 0

theorem scan_of_parse {path : Path} (h : parse raw = .ok path) :
    scan raw (.word [] false) [] (body raw.toList) = .ok path.steps := by
  unfold parse at h
  split at h
  · cases h
  · cases h
  · split at h
    · cases h
    · cases h
    · rename_i hscan
      cases h
      exact hscan

theorem IsPrefix.exists_scan {p : String} (hp : IsPrefix p) :
    ∃ steps, scan p (.word [] false) [] (body p.toList) = .ok steps := by
  rcases hp.reads with ⟨path, hpath⟩ | hnil
  · exact ⟨path.steps, scan_of_parse hpath⟩
  · exact ⟨[], by rw [hnil]; rfl⟩

/-- As the beginning of a body, a text is read as steps. -/
def BeginsAs (cs : List Char) (steps : List Step) : Prop :=
  ∃ current done, Reader.start.run? cs = some (.word current false, done) ∧ steps = flush done current

/-- What follows a beginning is read after it. -/
theorem BeginsAs.scan_append (h : BeginsAs cs steps) (raw : String) (ds : List Char) :
    ∃ current done, steps = flush done current ∧
      scan raw (.word [] false) [] (cs ++ ds) = scan raw (.word current false) done ds := by
  obtain ⟨current, done, hrun, hsteps⟩ := h
  refine ⟨current, done, hsteps, ?_⟩
  have happend := Path.scan_append raw Reader.start cs ds
  rw [hrun] at happend
  exact happend

/-- Plain characters around a text that is read do not keep it from being read. -/
theorem Reader.exists_mayEnd_of_plain {front back : List Char} (h : scan raw (.word [] false) [] cs = .ok steps)
    (hfront : ∀ c ∈ front, isSpecial c = false) (hback : ∀ c ∈ back, isSpecial c = false) :
    ∃ r, start.run? (front ++ cs ++ back) = some r ∧ r.MayEnd := by
  obtain ⟨r', hr', hend'⟩ := exists_mayEnd_of_scan h
  have htrails : Trails start (.word front false, []) := .word List.nil_suffix (Nat.le_refl _)
  obtain ⟨r, hr, hstand⟩ := htrails.exists_ahead hr'
  obtain ⟨s, hs, hend⟩ := (hstand.mayEnd hend').exists_run? hback
  refine ⟨s, ?_, hend⟩
  rw [List.append_assoc, run?_append, start, run?_of_plain hfront, List.nil_append, Option.bind_some, run?_append, hr,
    Option.bind_some, hs]

/-- After a prefix the reader is in a key or between steps. -/
theorem IsPrefix.exists_beginsAs {p : String} (hp : IsPrefix p) : ∃ steps, BeginsAs (opening p.toList) steps := by
  obtain ⟨steps, hscan⟩ := hp.exists_scan
  obtain ⟨front, back, hfront, hback, hopening⟩ := exists_opening_eq p.toList
  obtain ⟨before, hbefore, hp'⟩ := exists_eq_append_opening p.toList
  obtain ⟨⟨mode, done⟩, hrun, hend⟩ := Reader.exists_mayEnd_of_plain hscan hfront hback
  rw [← hopening] at hrun
  have hwaits := Reader.waits_of_run? hrun
  rw [← trailing_append hbefore, ← hp'] at hwaits
  cases mode with
  | word current afterDot =>
    obtain rfl : afterDot = false := hend
    exact ⟨_, current, done, hrun, rfl⟩
  | escape current => exact absurd (hwaits.symm.trans hp.complete) (by decide)
  | bracket inner => exact hend.elim

/-! ## §5 Continuations -/

/-- The text opens a brace that the end of a path may close. -/
def OpensBrace (p : String) : Prop := (trimStart p.toList).head? = some '\x7b'

variable {p : String} {tail : List Char}

/-- What follows a prefix is read after it, unless the whole is in braces. -/
theorem body_append (hfirst : tail.head? = some '.' ∨ tail.head? = some '[') (hlast : tail.getLast? = some c)
    (hvisible : isBlank c = false) (hunwrapped : ¬ (OpensBrace p ∧ c = '\x7d')) :
    body (p.toList ++ tail) = opening p.toList ++ tail := by
  have htrim : trim (p.toList ++ tail) = trimStart p.toList ++ tail :=
    Text.trim_append (fun d hd => by rcases hfirst with h | h <;> cases h.symm.trans hd <;> decide) hlast hvisible
  have hbetween : between? '\x7b' '\x7d' (trimStart p.toList ++ tail) = none := by
    cases hstart : trimStart p.toList with
    | nil =>
      obtain ⟨front, rfl⟩ := List.getLast?_eq_some_iff.mp hlast
      cases front with
      | nil => rcases hfirst with h | h <;> cases h <;> simp [between?]
      | cons d rest => rcases hfirst with h | h <;> cases h <;> simp [between?]
    | cons d rest =>
      rw [List.cons_append, between?, if_neg]
      rintro ⟨rfl, hclose⟩
      rw [List.getLast?_append, hlast] at hclose
      exact hunwrapped ⟨by rw [OpensBrace, hstart]; rfl, Option.some.inj hclose⟩
  rw [body_eq, htrim, hbetween]
  exact dropDollar_append (by rcases hfirst with h | h <;> simp [h])

/-- In braces, what stands between them is read. -/
theorem body_append_of_wrapped {rest : List Char} (hp : trimStart p.toList = '\x7b' :: rest) :
    body (p.toList ++ '.' :: (tail ++ ['\x7d'])) = opening rest ++ '.' :: trimEnd tail := by
  have htrim : trim (p.toList ++ '.' :: (tail ++ ['\x7d'])) = '\x7b' :: (rest ++ '.' :: tail ++ ['\x7d']) := by
    rw [Text.trim_append (c := '\x7d') (by simp; decide) (by simp [List.getLast?_cons]) (by decide), hp]
    simp
  have hinside : trim (rest ++ '.' :: tail) = trimStart rest ++ '.' :: trimEnd tail := by
    rw [trim, Text.trimStart_append (by simp; decide), Text.trimEnd_append_cons _ (by decide)]
  rw [body_eq, htrim, between?_cons_concat]
  dsimp only
  rw [hinside]
  exact dropDollar_append (by simp)

/-- Behind the brace that it opens, a prefix is read as no more steps. -/
theorem BeginsAs.exists_behind_brace {rest : List Char} (h : BeginsAs (opening p.toList) steps)
    (hp : trimStart p.toList = '\x7b' :: rest) : ∃ before, BeginsAs (opening rest) before ∧ before.length ≤ steps.length := by
  obtain ⟨current, done, hrun, rfl⟩ := h
  obtain ⟨front, hfront, hrest⟩ := exists_eq_append_opening rest
  have hplain : ∀ c ∈ '\x7b' :: front, isSpecial c = false := List.forall_mem_cons.mpr ⟨by decide, hfront⟩
  have hopening : opening p.toList = '\x7b' :: front ++ opening rest := by
    rw [opening, hp, List.cons_append, ← hrest]
    rfl
  rw [hopening, Reader.run?_append, Reader.start, Reader.run?_of_plain hplain, List.nil_append, Option.bind_some] at hrun
  have htrails : Reader.Trails Reader.start (.word ('\x7b' :: front) false, []) := .word List.nil_suffix (Nat.le_refl _)
  obtain ⟨s', hs', hstand⟩ := htrails.exists_behind hrun
  cases hstand with
  | word hcurrent hsteps => exact ⟨_, ⟨_, _, hs', rfl⟩, Reader.length_flush_mono hcurrent hsteps⟩

end Reaper.Path
