import StepScript.Proofs.CanonicalLine

/-!
# Texts without a comment

The comment token of the built-in language is a single character. Whether a comment starts at a
place hangs on the nesting there and on that character, and not on what follows. So a text in which
no comment is found is skipped whatever follows it, and a text can be cut anywhere to see whether it
is skipped. Only the delimiters and the hash marks of a text matter for this.

Main statements:

* `skips_iff` — a text is skipped if no comment is found in it;
* `skips_append_iff` — a text is skipped if its two parts are;
* `skips_filter_isMark` — all but the delimiters and the hash marks may be taken out;
* `Language.code_append_hash` — the code of a line that a comment is put behind.
-/

set_option autoImplicit false

namespace StepScript

open Text

variable {n : Nesting} {s t : List Char}

/-! ## One character after the other -/

/-- A text is skipped exactly if no comment is found in it. -/
theorem skips_iff : Skips ['#'] n s ↔ cutCommentFrom ['#'] n s = none := by
  constructor
  · exact cutCommentFrom_of_skips
  · intro h
    induction s generalizing n with
    | nil => exact Skips.nil
    | cons c s ih =>
        rw [cutCommentFrom, startsComment_hash] at h
        split at h
        · cases h
        · next hstart =>
          refine Skips.cons (fun t => ?_) (ih (Option.map_eq_none_iff.1 h))
          rw [startsComment_hash]
          simpa using hstart

theorem skips_cons_iff {c : Char} :
    Skips ['#'] n (c :: s) ↔ (n.isOutside && c == '#') = false ∧ Skips ['#'] (n.next c) s := by
  rw [skips_iff, skips_iff, cutCommentFrom, startsComment_hash]
  cases n.isOutside && c == '#' <;> simp

/-- A text is skipped exactly if its two parts are. -/
theorem skips_append_iff :
    Skips ['#'] n (s ++ t) ↔ Skips ['#'] n s ∧ Skips ['#'] (n.after s) t := by
  induction s generalizing n with
  | nil => simp [Skips.nil]
  | cons c s ih => rw [List.cons_append, skips_cons_iff, skips_cons_iff, ih, and_assoc]; rfl

/-! ## What matters for the scan -/

/-- Whether a character matters for the scan: a delimiter or a hash mark. -/
def isMark (c : Char) : Bool :=
  isDelimiter c || c == '#'

theorem isMark_of_isBlank {c : Char} (h : isBlank c = true) : isMark c = false := by
  have hhash : c ≠ '#' := by
    rintro rfl
    revert h
    decide
  simp [isMark, isDelimiter_of_isBlank h, hhash]

/-- All other characters may be taken out of a text. -/
theorem skips_filter_isMark : Skips ['#'] n (s.filter isMark) ↔ Skips ['#'] n s := by
  induction s generalizing n with
  | nil => exact Iff.rfl
  | cons c s ih =>
      by_cases hc : isMark c = true
      · rw [List.filter_cons_of_pos hc, skips_cons_iff, skips_cons_iff, ih]
      · rw [List.filter_cons_of_neg hc, skips_cons_iff, ih]
        simp only [isMark, Bool.or_eq_true, not_or, Bool.not_eq_true] at hc
        rw [Nesting.next_of_not_isDelimiter n hc.1, hc.2, Bool.and_false]
        simp

/-- Texts with the same delimiters and hash marks are skipped alike. -/
theorem skips_congr (h : s.filter isMark = t.filter isMark) : Skips ['#'] n s ↔ Skips ['#'] n t := by
  rw [← skips_filter_isMark, h, skips_filter_isMark]

/-! ## Nesting and open braces -/

namespace Nesting

theorem eq_outside_of_isOutside (h : n.isOutside = true) : n = .outside := by
  obtain ⟨depth, inList⟩ := n
  simpa [isOutside, outside] using h

theorem depth_next (n : Nesting) (c : Char) :
    (n.next c).depth = Parameter.braceStep n.depth c := by
  unfold next Parameter.braceStep
  repeat' split
  all_goals rfl

/-- The scan for a comment counts the same open braces as the cuts of a list. -/
theorem depth_after (n : Nesting) (s : List Char) :
    (n.after s).depth = Parameter.braceDepth n.depth s := by
  induction s generalizing n with
  | nil => rfl
  | cons c s ih => rw [after_cons, ih, depth_next, Parameter.braceDepth_cons]

/-- In front of the first bracket no list is open. -/
theorem inList_after (h : '[' ∉ s) (hn : n.inList = false) : (n.after s).inList = false := by
  induction s generalizing n with
  | nil => exact hn
  | cons c s ih =>
      obtain ⟨hc, hs⟩ := List.ne_and_not_mem_of_not_mem_cons h
      refine ih hs ?_
      unfold next
      repeat' split
      · exact hn
      · exact hn
      · next hopen => exact absurd hopen.1.symm hc
      · rfl
      · exact hn

end Nesting

/-! ## Code -/

namespace Language

/-- The code of a line holds no comment. -/
theorem cutComment_code_eq_none (lang : Language) (line : List Char) :
    lang.cutComment (lang.code line) = none := by
  cases h : lang.cutComment line with
  | none => rw [code_of_cutComment_eq_none h, h]
  | some p =>
      have hcode : lang.code line = p.1 := by rw [code, h]
      rw [hcode]
      exact cutComment_code h

/-- A comment starts where nothing is open. -/
theorem after_eq_outside_of_cutComment {lang : Language} {line code comment : List Char}
    (h : lang.cutComment line = some (code, comment)) :
    Nesting.outside.after code = .outside := by
  rw [cutComment] at h
  split at h
  · cases h
  · have hstart := (eq_of_cutCommentFrom h).2
    refine Nesting.eq_outside_of_isOutside ?_
    by_contra hopen
    rw [startsComment_of_not_isOutside _ (by simpa using hopen)] at hstart
    cases hstart

theorem skips_code (line : List Char) : Skips ['#'] .outside (standard.code line) := by
  have hnone := cutComment_code_eq_none standard line
  rw [cutComment_of_comment_ne_nil (by decide : standard.comment ≠ [])] at hnone
  exact skips_iff.2 hnone

/-- Behind the code of a line there is nothing, or a comment. -/
theorem exists_code_append_hash (line : List Char) :
    ∃ tail, line = standard.code line ++ tail ∧ (tail = [] ∨ ∃ s, tail = '#' :: s) := by
  cases h : standard.cutComment line with
  | none => exact ⟨[], by rw [code_of_cutComment_eq_none h, List.append_nil], Or.inl rfl⟩
  | some p =>
      obtain ⟨code, comment⟩ := p
      have hcode : standard.code line = code := by rw [Language.code, h]
      refine ⟨comment, ?_, Or.inr (exists_cons_of_cutComment h)⟩
      rw [hcode]
      exact eq_of_cutComment h

/-- **A comment that is put behind a line** leaves its code as it is, if the code leaves nothing
open. -/
theorem code_append_hash {line : List Char}
    (h : Nesting.outside.after (standard.code line) = .outside) (comment : List Char) :
    standard.code (line ++ '#' :: comment) = standard.code line := by
  obtain ⟨tail, hline, htail⟩ := exists_code_append_hash line
  -- a comment that is there already goes on with the new one
  have hcode : standard.code (tail ++ '#' :: comment) = [] := by
    rcases htail with rfl | ⟨s, rfl⟩ <;> rfl
  calc standard.code (line ++ '#' :: comment)
      = standard.code (standard.code line ++ (tail ++ '#' :: comment)) := by
        rw [← List.append_assoc, ← hline]
    _ = standard.code line := by
        rw [code_append_of_skips _ (fun _ => skips_code line) h, hcode, List.append_nil]

end Language

end StepScript
