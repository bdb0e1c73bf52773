import StepScript.Proofs.Trim
import StepScript.Script.Comment

/-!
# Scanning for a comment

The scan for a comment carries a nesting along. A text is **skipped** where no comment can start in
it whatever follows it; behind a skipped text the scan goes on as if it had just begun there, with
the nesting that the text leaves. Blank texts are skipped everywhere, so that a line can be trimmed
before or after its comment is taken off.

Main statements:

* `Skips.append` — a text that is skipped in two parts is skipped;
* `code_append_of_skips` — what is skipped in front of a text stays in front of its code;
* `trim_code_trim` — the trimmed code of a trimmed line is the trimmed code of the line.
-/

set_option autoImplicit false

namespace StepScript

open Text

/-! ## Nesting along a text -/

namespace Nesting

@[simp] theorem after_nil (n : Nesting) : n.after [] = n := rfl

@[simp] theorem after_cons (n : Nesting) (c : Char) (s : List Char) :
    n.after (c :: s) = (n.next c).after s := rfl

theorem after_append (n : Nesting) (s t : List Char) :
    n.after (s ++ t) = (n.after s).after t :=
  List.foldl_append

/-- Only braces and brackets change the nesting. -/
theorem next_of_not_isDelimiter (n : Nesting) {c : Char} (h : isDelimiter c = false) :
    n.next c = n := by
  simp only [isDelimiter, Bool.or_eq_false_iff, beq_eq_false_iff_ne] at h
  simp [next, h]

theorem after_of_not_isDelimiter (n : Nesting) {s : List Char}
    (h : ∀ c ∈ s, isDelimiter c = false) : n.after s = n := by
  induction s with
  | nil => rfl
  | cons c s ih =>
      rw [after_cons, next_of_not_isDelimiter n (h c List.mem_cons_self)]
      exact ih fun d hd => h d (List.mem_cons_of_mem _ hd)

end Nesting

theorem isDelimiter_of_isBlank {c : Char} (h : isBlank c = true) : isDelimiter c = false := by
  simp only [isDelimiter, Bool.or_eq_false_iff, beq_eq_false_iff_ne]
  refine ⟨⟨⟨?_, ?_⟩, ?_⟩, ?_⟩ <;> (rintro rfl; revert h; decide)

/-! ## Where no comment starts -/

section

variable {token : List Char} {n : Nesting}

theorem startsComment_of_isDelimiter {c : Char} (s : List Char) (h : isDelimiter c = true) :
    startsComment token n (c :: s) = false := by
  simp [startsComment, h]

theorem startsComment_of_not_isOutside (s : List Char) (h : n.isOutside = false) :
    startsComment token n s = false := by
  cases s <;> simp [startsComment, h]

theorem startsComment_of_head?_ne {c d : Char} (s : List Char) (h : token.head? = some d)
    (hne : d ≠ c) : startsComment token n (c :: s) = false := by
  obtain ⟨t, rfl⟩ := List.head?_eq_some_iff.1 h
  simp [startsComment, after?, hne]

/-- A hash mark starts a comment where nothing is open. -/
theorem startsComment_hash (n : Nesting) (c : Char) (s : List Char) :
    startsComment ['#'] n (c :: s) = (n.isOutside && c == '#') := by
  by_cases hc : c = '#'
  · subst hc
    simp [startsComment, isDelimiter, after?]
  · simp [startsComment, after?, hc, Ne.symm hc]

/-- No comment starts in the text `s`, whatever follows it, where the scan stands at `n`. -/
def Skips (token : List Char) (n : Nesting) (s : List Char) : Prop :=
  ∀ t, cutCommentFrom token n (s ++ t) =
    (cutCommentFrom token (n.after s) t).map fun p => (s ++ p.1, p.2)

theorem Skips.nil : Skips token n [] := fun t => by
  simp

theorem Skips.cons {c : Char} {s : List Char} (hc : ∀ t, startsComment token n (c :: t) = false)
    (hs : Skips token (n.next c) s) : Skips token n (c :: s) := by
  intro t
  rw [List.cons_append, cutCommentFrom, hc, if_neg Bool.false_ne_true, hs, Nesting.after_cons,
    Option.map_map]
  rfl

theorem Skips.append {s t : List Char} (hs : Skips token n s) (ht : Skips token (n.after s) t) :
    Skips token n (s ++ t) := by
  intro u
  rw [List.append_assoc, hs, ht, Nesting.after_append, Option.map_map]
  congr 1
  funext p
  simp

/-- A text with no delimiter and without the first character of the token is skipped. -/
theorem skips_of_plain {d : Char} {s : List Char} (hd : token.head? = some d) (hne : d ∉ s)
    (hs : ∀ c ∈ s, isDelimiter c = false) : Skips token n s := by
  induction s with
  | nil => exact Skips.nil
  | cons c s ih =>
      simp only [List.mem_cons, not_or] at hne
      refine Skips.cons (fun t => startsComment_of_head?_ne t hd hne.1) ?_
      rw [Nesting.next_of_not_isDelimiter n (hs c List.mem_cons_self)]
      exact ih hne.2 fun e he => hs e (List.mem_cons_of_mem _ he)

theorem cutCommentFrom_of_skips {s : List Char} (h : Skips token n s) :
    cutCommentFrom token n s = none := by
  have := h []
  rw [List.append_nil] at this
  rw [this]
  rfl

/-! ## Blanks behind a text -/

/-- Blanks do not complete a token that has none. -/
theorem isSome_after?_append_of_allBlank {opening b : List Char} (s : List Char)
    (ho : ∀ c ∈ opening, isBlank c = false) (hb : allBlank b = true) :
    (after? opening (s ++ b)).isSome = (after? opening s).isSome := by
  induction opening generalizing s with
  | nil => simp [after?]
  | cons p opening ih =>
      have hp : isBlank p = false := ho p List.mem_cons_self
      have ho' : ∀ c ∈ opening, isBlank c = false := fun c hc => ho c (List.mem_cons_of_mem _ hc)
      cases s with
      | nil =>
          cases b with
          | nil => rfl
          | cons c b =>
              -- the token would have to go on with a blank
              have hc : isBlank c = true := allBlank_iff.1 hb c List.mem_cons_self
              have hpc : p ≠ c := by
                rintro rfl
                rw [hp] at hc
                exact Bool.false_ne_true hc
              simp [after?, hpc]
      | cons c s =>
          by_cases hpc : p = c
          · simpa [after?, hpc] using ih s ho'
          · simp [after?, hpc]

theorem cutCommentFrom_append_of_allBlank {b : List Char} (n : Nesting) (s : List Char)
    (hne : token ≠ []) (ht : ∀ c ∈ token, isBlank c = false) (hb : allBlank b = true) :
    cutCommentFrom token n (s ++ b) =
      (cutCommentFrom token n s).map fun p => (p.1, p.2 ++ b) := by
  induction s generalizing n with
  | nil =>
      obtain ⟨d, hd⟩ : ∃ d, token.head? = some d := by
        cases token with
        | nil => exact absurd rfl hne
        | cons d t => exact ⟨d, rfl⟩
      have hdt : isBlank d = false := ht d (List.mem_of_mem_head? hd)
      have hdb : d ∉ b := fun h => by
        rw [allBlank_iff.1 hb d h] at hdt
        exact Bool.noConfusion hdt
      have hs : Skips token n b :=
        skips_of_plain hd hdb fun c hc => isDelimiter_of_isBlank (allBlank_iff.1 hb c hc)
      rw [List.nil_append, cutCommentFrom_of_skips hs]
      rfl
  | cons c s ih =>
      -- whether a comment starts here does not hang on the blanks at the end
      have hstart : startsComment token n (c :: s ++ b) = startsComment token n (c :: s) := by
        have h := isSome_after?_append_of_allBlank (c :: s) ht hb
        rw [List.cons_append] at h ⊢
        rw [startsComment, startsComment, h]
      rw [List.cons_append] at hstart
      rw [List.cons_append, cutCommentFrom, cutCommentFrom, hstart]
      split
      · rfl
      · rw [ih, Option.map_map, Option.map_map]
        rfl

end

/-! ## Code -/

namespace Language

variable {lang : Language}

theorem code_of_comment_eq_nil (h : lang.comment = []) (line : List Char) :
    lang.code line = line := by
  simp [code, cutComment, h]

theorem code_of_cutComment_eq_none {line : List Char} (h : lang.cutComment line = none) :
    lang.code line = line := by
  rw [code, h]

theorem cutComment_of_comment_ne_nil (h : lang.comment ≠ []) (line : List Char) :
    lang.cutComment line = cutCommentFrom lang.comment .outside line := by
  simp [cutComment, h]

/-- The code of a line is what the line starts with. -/
theorem exists_code_append (line : List Char) : ∃ comment, line = lang.code line ++ comment := by
  unfold code
  split
  · next c comment h => exact ⟨comment, eq_of_cutComment h⟩
  · exact ⟨[], by simp⟩

/-- A comment of the standard language starts with a hash mark. -/
theorem exists_cons_of_cutComment {line code comment : List Char}
    (h : standard.cutComment line = some (code, comment)) : ∃ s, comment = '#' :: s := by
  rw [cutComment_of_comment_ne_nil (by decide)] at h
  have hstart := (eq_of_cutCommentFrom h).2
  cases comment with
  | nil => cases hstart
  | cons c s =>
      have hhash : ((Nesting.outside.after code).isOutside && c == '#') = true :=
        (startsComment_hash _ c s).symm.trans hstart
      obtain rfl : c = '#' := by simpa using (Bool.and_eq_true_iff.1 hhash).2
      exact ⟨s, rfl⟩

/-- A text that is skipped and leaves nothing open stays in front of the code. -/
theorem code_append_of_skips {s : List Char} (t : List Char)
    (hs : lang.comment ≠ [] → Skips lang.comment .outside s)
    (hn : Nesting.outside.after s = .outside) : lang.code (s ++ t) = s ++ lang.code t := by
  by_cases hne : lang.comment = []
  · rw [code_of_comment_eq_nil hne, code_of_comment_eq_nil hne]
  · rw [code, code, cutComment_of_comment_ne_nil hne, cutComment_of_comment_ne_nil hne, hs hne, hn]
    cases cutCommentFrom lang.comment .outside t <;> rfl

/-- The comment token of a language **stands apart** from its keywords: it is empty, or it has no
blank and starts with a character that no keyword is spelt with. -/
def CommentApart (lang : Language) : Prop :=
  lang.comment = [] ∨
    (∀ c ∈ lang.comment, isBlank c = false) ∧
      ∃ c, lang.comment.head? = some c ∧ ∀ k : Keyword, c ∉ k.spelling

theorem commentApart_of_head {lang : Language} {d : Char} (hd : lang.comment.head? = some d)
    (hblank : lang.comment.all (fun c => !isBlank c) = true) (hk : ∀ k : Keyword, d ∉ k.spelling) :
    lang.CommentApart :=
  Or.inr ⟨fun c hc => by simpa using List.all_eq_true.1 hblank c hc, d, hd, hk⟩

theorem commentApart_standard : standard.CommentApart :=
  commentApart_of_head rfl (by decide) fun k => by cases k <;> decide

/-- A token that stands apart and starts comments has a first character, which is not blank. -/
theorem CommentApart.exists_head (h : lang.CommentApart) (hne : lang.comment ≠ []) :
    ∃ d, lang.comment.head? = some d ∧ isBlank d = false ∧ ∀ k : Keyword, d ∉ k.spelling := by
  obtain hnil | ⟨hblank, d, hd, hk⟩ := h
  · exact absurd hnil hne
  · exact ⟨d, hd, hblank d (List.mem_of_mem_head? hd), hk⟩

theorem CommentApart.skips_of_allBlank (h : lang.CommentApart) {b : List Char} (n : Nesting)
    (hb : allBlank b = true) (hne : lang.comment ≠ []) : Skips lang.comment n b := by
  obtain ⟨d, hd, hblank, -⟩ := h.exists_head hne
  refine skips_of_plain hd (fun hmem => ?_) fun c hc =>
    isDelimiter_of_isBlank (allBlank_iff.1 hb c hc)
  rw [allBlank_iff.1 hb d hmem] at hblank
  exact Bool.noConfusion hblank

/-- Blanks in front of a text stay in front of its code. -/
theorem CommentApart.code_blank_append (h : lang.CommentApart) {a : List Char} (s : List Char)
    (ha : allBlank a = true) : lang.code (a ++ s) = a ++ lang.code s :=
  code_append_of_skips s (h.skips_of_allBlank .outside ha) <|
    Nesting.after_of_not_isDelimiter _ fun c hc => isDelimiter_of_isBlank (allBlank_iff.1 ha c hc)

/-- Blanks behind a text stay behind its code, or go with the comment. -/
theorem CommentApart.exists_code_append_blank (h : lang.CommentApart) {b : List Char}
    (s : List Char) (hb : allBlank b = true) :
    ∃ b', allBlank b' = true ∧ lang.code (s ++ b) = lang.code s ++ b' := by
  by_cases hne : lang.comment = []
  · exact ⟨b, hb, by rw [code_of_comment_eq_nil hne, code_of_comment_eq_nil hne]⟩
  · obtain hnil | ⟨ht, -⟩ := h
    · exact absurd hnil hne
    · rw [code, code, cutComment_of_comment_ne_nil hne, cutComment_of_comment_ne_nil hne,
        cutCommentFrom_append_of_allBlank .outside s hne ht hb]
      cases cutCommentFrom lang.comment .outside s with
      | none => exact ⟨b, hb, rfl⟩
      | some p => exact ⟨[], rfl, by simp⟩

/-- A line may be trimmed before or after its comment is taken off. -/
theorem CommentApart.trim_code_trim (h : lang.CommentApart) (line : List Char) :
    trim (lang.code (trim line)) = trim (lang.code line) := by
  obtain ⟨a, b, ha, hb, hline⟩ := exists_trim line
  obtain ⟨b', hb', hcode⟩ := h.exists_code_append_blank (trim line) hb
  have heq : lang.code line = a ++ lang.code (trim line) ++ b' := by
    conv => lhs; rw [hline]
    rw [List.append_assoc, h.code_blank_append _ ha, hcode, List.append_assoc]
  rw [heq, trim_blank_append_blank _ ha hb']

end Language

end StepScript
