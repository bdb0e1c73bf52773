import StepScript.Text.Blank

/-!
# Trimming

Trimming takes the blank characters off both ends of a text and touches nothing between them.

Main statements:

* `exists_trim` — a text is its trimmed form between two blank texts;
* `trim_blank_append_blank` — blank texts at the ends do not change the trimmed form;
* `trim_eq_self_iff` — a text is trimmed iff it is empty or no blank stands at either end.
-/

set_option autoImplicit false

namespace StepScript.Text

/-! ## Blank texts -/

theorem allBlank_iff {s : List Char} : allBlank s = true ↔ ∀ c ∈ s, isBlank c = true := by
  simp [allBlank]

@[simp] theorem allBlank_nil : allBlank [] = true := rfl

theorem allBlank_append {s t : List Char} :
    allBlank (s ++ t) = true ↔ allBlank s = true ∧ allBlank t = true := by
  simp [allBlank]

theorem allBlank_indentation (s : List Char) : allBlank (indentation s) = true := by
  rw [indentation, allBlank, List.all_takeWhile]

/-! ## The start of a text -/

theorem trimStart_append_of_allBlank {b : List Char} (s : List Char) (h : allBlank b = true) :
    trimStart (b ++ s) = trimStart s := by
  induction b with
  | nil => rfl
  | cons c b ih =>
      rw [allBlank_iff] at h
      have hc : isBlank c = true := h c List.mem_cons_self
      have hb : allBlank b = true := allBlank_iff.2 fun d hd => h d (List.mem_cons_of_mem _ hd)
      have hs : trimStart (c :: b ++ s) = trimStart (b ++ s) := by
        simp [trimStart, hc]
      rw [hs, ih hb]

/-- A text that starts with no blank is not changed at its start. -/
theorem trimStart_cons_of_not_blank {c : Char} (s : List Char) (h : isBlank c = false) :
    trimStart (c :: s) = c :: s := by
  simp [trimStart, h]

theorem not_isBlank_of_trimStart_eq_cons {s t : List Char} {c : Char}
    (h : trimStart s = c :: t) : isBlank c = false := by
  induction s with
  | nil => simp [trimStart] at h
  | cons d s ih =>
      by_cases hd : isBlank d = true
      · exact ih (by simpa [trimStart, hd] using h)
      · simp only [Bool.not_eq_true] at hd
        rw [trimStart_cons_of_not_blank s hd] at h
        rw [← (List.cons.inj h).1]
        exact hd

/-! ## The end of a text -/

theorem trimEnd_cons_of_ne_nil {c : Char} {s : List Char} (h : trimEnd s ≠ []) :
    trimEnd (c :: s) = c :: trimEnd s := by
  rw [trimEnd]
  split
  · next hs => exact absurd hs h
  · rfl

theorem trimEnd_cons_of_eq_nil {c : Char} {s : List Char} (h : trimEnd s = []) :
    trimEnd (c :: s) = if isBlank c then [] else [c] := by
  rw [trimEnd, h]

theorem trimEnd_eq_nil {s : List Char} : trimEnd s = [] ↔ allBlank s = true := by
  induction s with
  | nil => simp [trimEnd]
  | cons c s ih =>
      by_cases hs : trimEnd s = []
      · rw [trimEnd_cons_of_eq_nil hs]
        have := ih.1 hs
        simp_all [allBlank]
      · rw [trimEnd_cons_of_ne_nil hs]
        have : allBlank s = false := by
          rw [← Bool.not_eq_true]
          exact fun h => hs (ih.2 h)
        simp_all [allBlank]

/-- A text is its form without the blanks at its end, and those blanks. -/
theorem exists_trimEnd (s : List Char) : ∃ b, allBlank b = true ∧ s = trimEnd s ++ b := by
  induction s with
  | nil => exact ⟨[], rfl, rfl⟩
  | cons c s ih =>
      obtain ⟨b, hb, hs⟩ := ih
      by_cases hnil : trimEnd s = []
      · rw [trimEnd_cons_of_eq_nil hnil]
        have hsb : allBlank s = true := trimEnd_eq_nil.1 hnil
        by_cases hc : isBlank c = true
        · exact ⟨c :: s, by simpa [allBlank, hc] using hsb, by simp [hc]⟩
        · exact ⟨s, hsb, by simp [hc]⟩
      · rw [trimEnd_cons_of_ne_nil hnil]
        exact ⟨b, hb, congrArg (c :: ·) hs⟩

theorem trimEnd_append_of_allBlank (s : List Char) {b : List Char} (h : allBlank b = true) :
    trimEnd (s ++ b) = trimEnd s := by
  induction s with
  | nil =>
      rw [List.nil_append, trimEnd_eq_nil.2 h]
      rfl
  | cons c s ih => rw [List.cons_append, trimEnd, trimEnd, ih]

/-- What stands before a text that is not blank is kept. -/
theorem trimEnd_append_of_ne_nil (s : List Char) {t : List Char} (h : trimEnd t ≠ []) :
    trimEnd (s ++ t) = s ++ trimEnd t := by
  induction s with
  | nil => rfl
  | cons c s ih =>
      have hne : trimEnd (s ++ t) ≠ [] := by
        rw [ih]
        exact fun hnil => h (List.append_eq_nil_iff.1 hnil).2
      rw [List.cons_append, trimEnd_cons_of_ne_nil hne, ih, List.cons_append]

theorem trimEnd_append_singleton (s : List Char) {c : Char} (h : isBlank c = false) :
    trimEnd (s ++ [c]) = s ++ [c] := by
  have hc : trimEnd [c] = [c] := by simp [trimEnd, h]
  rw [trimEnd_append_of_ne_nil s (by rw [hc]; simp), hc]

theorem not_isBlank_of_getLast?_trimEnd {s : List Char} {c : Char}
    (h : (trimEnd s).getLast? = some c) : isBlank c = false := by
  induction s with
  | nil => simp [trimEnd] at h
  | cons d s ih =>
      by_cases hs : trimEnd s = []
      · rw [trimEnd_cons_of_eq_nil hs] at h
        split at h
        · simp at h
        · next hd =>
          simp only [List.getLast?_singleton, Option.some.injEq] at h
          simpa [h] using hd
      · rw [trimEnd_cons_of_ne_nil hs] at h
        refine ih ?_
        rw [List.getLast?_cons] at h
        cases hl : (trimEnd s).getLast? with
        | none => exact absurd (List.getLast?_eq_none_iff.1 hl) hs
        | some e => simpa [hl] using h

theorem trimEnd_trimEnd (s : List Char) : trimEnd (trimEnd s) = trimEnd s := by
  obtain ⟨b, hb, hs⟩ := exists_trimEnd s
  have h := trimEnd_append_of_allBlank (trimEnd s) hb
  rw [← hs] at h
  exact h.symm

/-! ## Both ends -/

theorem trimStart_trimEnd_trimStart (s : List Char) :
    trimStart (trimEnd (trimStart s)) = trimEnd (trimStart s) := by
  cases ht : trimStart s with
  | nil => rfl
  | cons c t =>
      have hc : isBlank c = false := not_isBlank_of_trimStart_eq_cons ht
      by_cases hs : trimEnd t = []
      · simp [trimEnd_cons_of_eq_nil hs, hc, trimStart]
      · rw [trimEnd_cons_of_ne_nil hs, trimStart_cons_of_not_blank _ hc]

/-- Trimming twice is trimming once. -/
theorem trim_trim (s : List Char) : trim (trim s) = trim s := by
  rw [trim, trim, trimStart_trimEnd_trimStart, trimEnd_trimEnd]

/-- A text is its trimmed form between two blank texts. -/
theorem exists_trim (s : List Char) :
    ∃ a b, allBlank a = true ∧ allBlank b = true ∧ s = a ++ trim s ++ b := by
  obtain ⟨b, hb, hs⟩ := exists_trimEnd (trimStart s)
  refine ⟨indentation s, b, allBlank_indentation s, hb, ?_⟩
  rw [List.append_assoc, trim, ← hs, indentation_append_trimStart]

theorem count_trim_le (d : Char) (s : List Char) : (trim s).count d ≤ s.count d := by
  obtain ⟨a, b, -, -, hs⟩ := exists_trim s
  have hcount := congrArg (List.count d) hs
  rw [List.count_append, List.count_append] at hcount
  omega

section Filter

variable {p : Char → Bool} (hblank : ∀ c, isBlank c = true → p c = false)

include hblank

theorem filter_eq_nil_of_allBlank {b : List Char} (h : allBlank b = true) : b.filter p = [] :=
  List.filter_eq_nil_iff.2 fun c hc => by simp [hblank c (allBlank_iff.1 h c hc)]

/-- Trimming keeps whatever is not blank. -/
theorem filter_trim (s : List Char) : (trim s).filter p = s.filter p := by
  obtain ⟨a, b, ha, hb, hs⟩ := exists_trim s
  have htrim := congrArg (List.filter p) hs
  rw [List.filter_append, List.filter_append, filter_eq_nil_of_allBlank hblank ha,
    filter_eq_nil_of_allBlank hblank hb, List.nil_append, List.append_nil] at htrim
  exact htrim.symm

end Filter

theorem trim_eq_nil {s : List Char} : trim s = [] ↔ allBlank s = true := by
  constructor
  · intro h
    obtain ⟨a, b, ha, hb, hs⟩ := exists_trim s
    rw [hs, h, List.append_nil]
    exact allBlank_append.2 ⟨ha, hb⟩
  · intro h
    have hs : trimStart (s ++ []) = trimStart [] := trimStart_append_of_allBlank [] h
    rw [List.append_nil] at hs
    rw [trim, hs]
    rfl

/-- Blank texts at the ends do not change the trimmed form. -/
theorem trim_blank_append_blank {a b : List Char} (s : List Char) (ha : allBlank a = true)
    (hb : allBlank b = true) : trim (a ++ s ++ b) = trim s := by
  -- the blanks behind `s` are reached from the left only if `s` is blank itself
  rw [List.append_assoc, trim, trimStart_append_of_allBlank _ ha]
  by_cases hs : allBlank s = true
  · have hsb : allBlank (s ++ b) = true := allBlank_append.2 ⟨hs, hb⟩
    rw [← trim, trim_eq_nil.2 hsb, trim_eq_nil.2 hs]
  · have hne : trimStart s ≠ [] := fun h => hs <| trim_eq_nil.1 <| by
      rw [trim, h]
      rfl
    have happ : trimStart (s ++ b) = trimStart s ++ b := by
      rw [trimStart, List.dropWhile_append]
      split
      · next h => exact absurd (List.isEmpty_iff.1 h) hne
      · rfl
    rw [happ, trimEnd_append_of_allBlank _ hb, trim]

theorem trim_eq_self_iff {s : List Char} :
    trim s = s ↔
      (∀ c, s.head? = some c → isBlank c = false) ∧
        ∀ c, s.getLast? = some c → isBlank c = false := by
  constructor
  · intro h
    constructor
    · intro c hc
      obtain ⟨t, ht⟩ := List.head?_eq_some_iff.1 hc
      refine not_isBlank_of_trimStart_eq_cons (s := trim s) (t := t) ?_
      rw [trim, trimStart_trimEnd_trimStart, ← trim, h, ht]
    · intro c hc
      rw [← h, trim] at hc
      exact not_isBlank_of_getLast?_trimEnd hc
  · rintro ⟨hhead, hlast⟩
    cases hs : s with
    | nil => rfl
    | cons c t =>
        have hc : isBlank c = false := hhead c (by rw [hs]; rfl)
        obtain ⟨u, d, hu⟩ : ∃ u d, c :: t = u ++ [d] :=
          ⟨_, _, (List.dropLast_concat_getLast (List.cons_ne_nil c t)).symm⟩
        have hd : isBlank d = false := hlast d (by rw [hs, hu]; simp)
        rw [trim, trimStart_cons_of_not_blank t hc, hu, trimEnd_append_singleton u hd]

end StepScript.Text
