import Mathlib.Data.List.Basic
import StepScript.Proofs.CommandLines
import StepScript.Proofs.CommentScan

/-!
# Reading command lines

Classification finds the keyword of a line on the trimmed line. Reading first takes the comment off
the line as it is. Where the comment token stands apart from the keywords the two agree: the comment
can only start behind the keyword, and what is left behind the keyword still ends it.

Main statements:

* `Keyword.atStart?_spelling_append` — a keyword is found where it is spelt;
* `IsCommandText.parseLine_eq` — a command line reads as a command with its keyword;
* `parse_eq_map` — the commands of a script are its command lines, read one by one.
-/

set_option autoImplicit false

namespace StepScript

open Text

/-! ## Keywords at the start of a text -/

namespace Keyword

theorem spelling_ne_nil (k : Keyword) : k.spelling ≠ [] := by
  cases k <;> decide

theorem isBlank_of_mem_spelling {k : Keyword} {c : Char} (h : c ∈ k.spelling) :
    isBlank c = false := by
  have hall : k.spelling.all (fun d => !isBlank d) = true := by
    cases k <;> decide
  simpa using List.all_eq_true.1 hall c h

theorem isDelimiter_of_mem_spelling {k : Keyword} {c : Char} (h : c ∈ k.spelling) :
    isDelimiter c = false := by
  have hall : k.spelling.all (fun d => !isDelimiter d) = true := by
    cases k <;> decide
  simpa using List.all_eq_true.1 hall c h

theorem newline_not_mem_spelling (k : Keyword) : '\n' ∉ k.spelling := fun h => by
  have hblank : isBlank '\n' = false := isBlank_of_mem_spelling h
  revert hblank
  decide

/-- No keyword is spelt like the start of another one. -/
theorem eq_of_prefixed_spelling {j k : Keyword} (h : j.spelling <+: k.spelling) : j = k := by
  have hall : ∀ i ∈ all, ∀ l ∈ all, i.spelling.isPrefixOf l.spelling = true → i = l := by
    decide
  exact hall j (mem_all j) k (mem_all k) (List.isPrefixOf_iff_prefix.2 h)

/-- A text starts with one keyword at most. -/
theorem eq_of_spelling_append_eq {j k : Keyword} {s t : List Char}
    (h : j.spelling ++ s = k.spelling ++ t) : j = k ∧ s = t := by
  -- of two spellings at the start of one text, one is the start of the other
  obtain rfl : j = k := by
    have hj : j.spelling <+: k.spelling ++ t := ⟨s, h⟩
    have hk : k.spelling <+: k.spelling ++ t := ⟨t, rfl⟩
    rcases List.prefix_or_prefix_of_prefix hj hk with hp | hp
    · exact eq_of_prefixed_spelling hp
    · exact (eq_of_prefixed_spelling hp).symm
  exact ⟨rfl, List.append_cancel_left h⟩

/-- A keyword is found where it is spelt and may end. -/
theorem atStart?_spelling_append (k : Keyword) {rest : List Char} (h : endsBefore rest = true) :
    atStart? (k.spelling ++ rest) = some (k, rest) := by
  cases hs : atStart? (k.spelling ++ rest) with
  | none =>
      have hnone := List.findSome?_eq_none_iff.1 hs k (mem_all k)
      rw [after?_append] at hnone
      simp [h] at hnone
  | some found =>
      obtain ⟨j, tail⟩ := found
      obtain ⟨rfl, rfl⟩ := eq_of_spelling_append_eq (eq_of_atStart? hs).1
      rfl

/-- The end of a keyword is seen on what is left of the text behind it, too. -/
theorem endsBefore_of_prefixed {s t : List Char} (h : s <+: t) (ht : endsBefore t = true) :
    endsBefore s = true := by
  cases s with
  | nil => rfl
  | cons c s =>
      obtain ⟨u, rfl⟩ := h
      exact ht

/-- Blanks behind what follows a keyword end it, too. -/
theorem endsBefore_append_of_allBlank {s b : List Char} (h : endsBefore s = true)
    (hb : allBlank b = true) : endsBefore (s ++ b) = true := by
  cases s with
  | cons c s => exact h
  | nil =>
      cases b with
      | nil => rfl
      | cons c b => simp [endsBefore, allBlank_iff.1 hb c List.mem_cons_self]

theorem trim_spelling_append (k : Keyword) (rest : List Char) :
    trim (k.spelling ++ rest) = k.spelling ++ trimEnd rest := by
  obtain ⟨u, d, hu⟩ : ∃ u d, k.spelling = u ++ [d] :=
    ⟨_, _, (List.dropLast_concat_getLast k.spelling_ne_nil).symm⟩
  have hd : isBlank d = false := isBlank_of_mem_spelling (k := k) (by rw [hu]; simp)
  obtain ⟨c, t, ht⟩ := List.exists_cons_of_ne_nil k.spelling_ne_nil
  have hc : isBlank c = false := isBlank_of_mem_spelling (k := k) (by rw [ht]; simp)
  have hstart : trimStart (k.spelling ++ rest) = k.spelling ++ rest := by
    rw [ht, List.cons_append, trimStart_cons_of_not_blank _ hc]
  rw [trim, hstart]
  by_cases hr : trimEnd rest = []
  · obtain ⟨b, hb, heq⟩ := exists_trimEnd rest
    rw [hr, List.nil_append] at heq
    rw [hr, heq, trimEnd_append_of_allBlank _ hb, List.append_nil, hu,
      trimEnd_append_singleton u hd]
  · rw [trimEnd_append_of_ne_nil _ hr]

end Keyword

namespace Script

variable {lang : Language}

/-! ## One command line -/

def lineParams (lang : Language) (line : List Char) : List Parameter :=
  match Keyword.atStart? (trim (lang.code line)) with
  | some (_, rest) => paramsOf (trimStart rest)
  | none => []

/-- A command line starts with its keyword. -/
theorem IsCommandText.exists_rest {text : List Char} {k : Keyword}
    (h : IsCommandText lang text k) :
    ∃ rest, trim text = k.spelling ++ rest ∧ Keyword.endsBefore rest = true := by
  have hc := h.stepClass_eq
  unfold stepClass at hc
  split at hc
  · simp at hc
  · split at hc
    · simp at hc
    · split at hc
      · next j rest hj =>
        obtain rfl : j = k := by simpa using hc
        exact ⟨rest, Keyword.eq_of_atStart? hj⟩
      · simp at hc

/-- The code of a command line starts with its keyword, too. -/
theorem IsCommandText.exists_code {text : List Char} {k : Keyword} (h : IsCommandText lang text k)
    (ha : lang.CommentApart) :
    ∃ rest, trim (lang.code text) = k.spelling ++ rest ∧ Keyword.endsBefore rest = true := by
  obtain ⟨rest, htrim, hends⟩ := h.exists_rest
  have hskip : lang.comment ≠ [] → Skips lang.comment .outside k.spelling := fun hne => by
    obtain ⟨d, hd, -, hk⟩ := ha.exists_head hne
    exact skips_of_plain hd (hk k) fun c hc => Keyword.isDelimiter_of_mem_spelling hc
  have hnest : Nesting.outside.after k.spelling = .outside :=
    Nesting.after_of_not_isDelimiter _ fun c hc => Keyword.isDelimiter_of_mem_spelling hc
  refine ⟨trimEnd (lang.code rest), ?_, ?_⟩
  · rw [← ha.trim_code_trim, htrim, Language.code_append_of_skips rest hskip hnest,
      Keyword.trim_spelling_append]
  -- what is left behind the keyword is the start of what stood there
  · obtain ⟨comment, hcode⟩ := @Language.exists_code_append lang rest
    obtain ⟨b, -, hb⟩ := exists_trimEnd (lang.code rest)
    refine Keyword.endsBefore_of_prefixed ⟨b ++ comment, ?_⟩ hends
    rw [← List.append_assoc, ← hb, ← hcode]

/-- A command line reads as a command with its keyword. -/
theorem IsCommandText.parseLine_eq {text : List Char} {k : Keyword}
    (h : IsCommandText lang text k) (ha : lang.CommentApart) (number : Nat) :
    parseLine lang text number = some ⟨number, k, lineParams lang text⟩ := by
  obtain ⟨rest, hcode, hends⟩ := h.exists_code ha
  have hstart := Keyword.atStart?_spelling_append k hends
  rw [parseLine, lineParams, hcode, hstart]
  rfl

/-- A trimmed line reads like the line. -/
theorem parseLine_trim (ha : lang.CommentApart) (line : List Char) (number : Nat) :
    parseLine lang (trim line) number = parseLine lang line number := by
  rw [parseLine, parseLine, ha.trim_code_trim]

/-! ## All command lines -/

/-- The command that stands on a command line. -/
def readLine (lang : Language) (l : CommandLine) : Command :=
  ⟨l.number, l.keyword, lineParams lang l.text⟩

theorem isCommandText_of_mem {script : List Char} {l : CommandLine}
    (h : l ∈ commandLines lang script) : IsCommandText lang l.text l.keyword := by
  obtain ⟨i, hi⟩ := List.getElem?_of_mem h
  obtain ⟨front, back, hp⟩ := exists_placed lang hi
  exact hp.command

/-- The commands of a script are its command lines, read one by one. -/
theorem parse_eq_map (ha : lang.CommentApart) (script : List Char) :
    parse lang script = (commandLines lang script).map (readLine lang) := by
  refine List.filterMap_eq_map_iff_forall_eq_some.2 fun l hl => ?_
  exact (isCommandText_of_mem hl).parseLine_eq ha l.number

theorem length_parse (ha : lang.CommentApart) (script : List Char) :
    (parse lang script).length = count lang script := by
  rw [parse_eq_map ha, List.length_map, count]

end Script

end StepScript
