import StepScript.Proofs.LineLexemes

/-!
# What the lexemes of a line show

The class of a line is read off the trimmed line, its lexemes are cut from its code. The two are
worked out apart, and this is how far they agree. A line **opens the steps** if the steps keyword and
a colon stand at its start; its lexemes tell that much, and it is a marker only if nothing follows
the colon. Among the steps, the first lexeme that is not blank is a comment exactly on a comment
line, and it is the keyword of a command on a command line. It is a keyword on other lines only if
the comment token stands right behind it.

Main statements:

* `Lexer.exists_steps_iff` — which lines have the lexeme of the steps keyword;
* `Language.isMarker_trim_iff` — which lines are markers;
* `Script.showsClass_lexLine` — what the first lexeme that is not blank says of a line;
* `Script.showsRole_of_classify` — all this, for every line of a script.
-/

set_option autoImplicit false

namespace StepScript

open Text

/-! ## Lines that open the steps -/

/-- A line that **opens the steps**: it starts with the steps keyword and a colon, and `tail` is what
follows. -/
def Language.OpensSteps (lang : Language) (line tail : List Char) : Prop :=
  ∃ a gap, allBlank a = true ∧ allBlank gap = true ∧
    line = a ++ (lang.stepsKeyword ++ (gap ++ ':' :: tail))

/-- The steps keyword of a language **stands apart** from its other words: it starts with a character
that no other keyword is spelt with, and no comment starts in it or at the colon behind it. -/
structure Language.StepsApart (lang : Language) : Prop where
  head : ∃ c t, lang.stepsKeyword = c :: t ∧ isBlank c = false ∧ ∀ k : Keyword, c ∉ k.spelling
  plain : ∀ c ∈ lang.stepsKeyword, isDelimiter c = false
  comment : ∀ d, lang.comment.head? = some d →
    isDelimiter d = false ∧ d ∉ lang.stepsKeyword ∧ d ≠ ':'

namespace Language

variable {lang : Language}

theorem stepsApart_standard : standard.StepsApart where
  head := ⟨'步', ['骤'], rfl, by decide, fun k => by cases k <;> decide⟩
  plain := fun c hc => by
    have hall : standard.stepsKeyword.all (fun d => !isDelimiter d) = true := by decide
    simpa using List.all_eq_true.1 hall c hc
  comment := fun d hd => by
    obtain rfl : '#' = d := Option.some.inj hd
    decide

theorem StepsApart.trimStart_append (h : lang.StepsApart) (s : List Char) :
    trimStart (lang.stepsKeyword ++ s) = lang.stepsKeyword ++ s := by
  obtain ⟨c, t, ht, hblank, -⟩ := h.head
  rw [ht, List.cons_append, trimStart_cons_of_not_blank _ hblank]

/-- A text that starts with the steps keyword starts with no other keyword. -/
theorem StepsApart.spelling_append_ne (h : lang.StepsApart) (k : Keyword) (s t : List Char) :
    k.spelling ++ s ≠ lang.stepsKeyword ++ t := by
  intro heq
  obtain ⟨c, u, hu, -, hk⟩ := h.head
  obtain ⟨d, v, hd⟩ := List.exists_cons_of_ne_nil k.spelling_ne_nil
  rw [hu, hd] at heq
  obtain ⟨rfl, -⟩ := List.cons.inj heq
  exact hk k (by rw [hd]; exact List.mem_cons_self)

theorem exists_of_isMarker {line : List Char} (h : lang.isMarker line = true) :
    ∃ rest, line = lang.stepsKeyword ++ rest ∧ trimStart rest = [':'] := by
  obtain ⟨rest, hrest, hcolon⟩ := (Option.any_eq_true _ _).1 h
  exact ⟨rest, after?_eq_some.1 hrest, eq_of_beq hcolon⟩

theorem isComment_iff {line : List Char} :
    lang.isComment line = true ↔ lang.comment ≠ [] ∧ lang.comment <+: line := by
  rw [isComment, Bool.and_eq_true, isSome_after?_iff]
  simp

/-- A comment starts with the first character of the comment token. -/
theorem exists_head_of_isComment {line : List Char} (h : lang.isComment line = true) :
    ∃ d, lang.comment.head? = some d ∧ line.head? = some d := by
  obtain ⟨hne, rest, rfl⟩ := isComment_iff.1 h
  obtain ⟨d, t, hd⟩ := List.exists_cons_of_ne_nil hne
  exact ⟨d, by rw [hd]; rfl, by rw [hd]; rfl⟩

/-! ### The trimmed line -/

theorem OpensSteps.trimStart_eq {line tail : List Char} (hl : lang.OpensSteps line tail)
    (h : lang.StepsApart) :
    ∃ gap, allBlank gap = true ∧ trimStart line = lang.stepsKeyword ++ (gap ++ ':' :: tail) := by
  obtain ⟨a, gap, ha, hgap, rfl⟩ := hl
  exact ⟨gap, hgap, by rw [trimStart_append_of_allBlank _ ha, h.trimStart_append]⟩

/-- A marker is a line that opens the steps and goes on with nothing but blanks. -/
theorem isMarker_trim_iff (h : lang.StepsApart) {line : List Char} :
    lang.isMarker (trim line) = true ↔
      ∃ tail, lang.OpensSteps line tail ∧ allBlank tail = true := by
  constructor
  · intro hm
    obtain ⟨rest, hrest, hcolon⟩ := exists_of_isMarker hm
    obtain ⟨a, b, ha, hb, hline⟩ := exists_trim line
    refine ⟨b, ⟨a, indentation rest, ha, allBlank_indentation rest, ?_⟩, hb⟩
    have hgap : rest = indentation rest ++ [':'] := by
      rw [← hcolon, indentation_append_trimStart]
    rw [hrest, hgap] at hline
    simpa using hline
  · rintro ⟨tail, ⟨a, gap, ha, hgap, rfl⟩, htail⟩
    have hcolon : isBlank ':' = false := by decide
    have hmarker : trim (lang.stepsKeyword ++ (gap ++ [':'])) =
        lang.stepsKeyword ++ (gap ++ [':']) := by
      rw [trim, h.trimStart_append, ← List.append_assoc, trimEnd_append_singleton _ hcolon]
    have hline : a ++ (lang.stepsKeyword ++ (gap ++ ':' :: tail)) =
        a ++ (lang.stepsKeyword ++ (gap ++ [':'])) ++ tail := by simp
    rw [hline, trim_blank_append_blank _ ha htail, hmarker, isMarker, after?_append]
    show (trimStart (gap ++ [':']) == [':']) = true
    rw [trimStart_append_of_allBlank _ hgap]
    decide

/-! ### The code of the line -/

/-- What stands up to the colon is code, whatever follows. -/
theorem OpensSteps.code {line tail : List Char} (hl : lang.OpensSteps line tail)
    (h : lang.StepsApart) (ha : lang.CommentApart) :
    lang.OpensSteps (lang.code line) (lang.code tail) := by
  obtain ⟨a, gap, hblank, hgap, rfl⟩ := hl
  have hcolon : isDelimiter ':' = false := by decide
  have hkeyword : lang.code (lang.stepsKeyword ++ (gap ++ ':' :: tail)) =
      lang.stepsKeyword ++ lang.code (gap ++ ':' :: tail) := by
    refine code_append_of_skips _ (fun hne => ?_) (Nesting.after_of_not_isDelimiter _ h.plain)
    obtain ⟨d, hd, -⟩ := ha.exists_head hne
    exact skips_of_plain hd (h.comment d hd).2.1 h.plain
  have hpunct : lang.code ([':'] ++ tail) = [':'] ++ lang.code tail := by
    refine code_append_of_skips _ (fun hne => ?_) (Nesting.after_of_not_isDelimiter _ (by simpa))
    obtain ⟨d, hd, -⟩ := ha.exists_head hne
    exact skips_of_plain hd (by simpa using (h.comment d hd).2.2) (by simpa)
  refine ⟨a, gap, hblank, hgap, ?_⟩
  rw [ha.code_blank_append _ hblank, hkeyword, ha.code_blank_append _ hgap]
  congr 3

theorem exists_opensSteps_code_iff (h : lang.StepsApart) (ha : lang.CommentApart)
    {line : List Char} :
    (∃ tail, lang.OpensSteps (lang.code line) tail) ↔ ∃ tail, lang.OpensSteps line tail := by
  constructor
  · rintro ⟨tail, a, gap, hblank, hgap, hcode⟩
    obtain ⟨comment, hline⟩ := @exists_code_append lang line
    rw [hcode] at hline
    exact ⟨tail ++ comment, a, gap, hblank, hgap, by simpa using hline⟩
  · rintro ⟨tail, hl⟩
    exact ⟨lang.code tail, hl.code h ha⟩

end Language

namespace Lexer

variable {lang : Language}

/-! ## The lexeme of the steps keyword -/

theorem exists_lexMarker?_iff (h : lang.StepsApart) {line : List Char} :
    (∃ ls, lexMarker? lang line = some ls) ↔ ∃ tail, lang.OpensSteps line tail := by
  constructor
  · rintro ⟨ls, hls⟩
    obtain ⟨rest, tail, hrest, htail, -⟩ := exists_of_lexMarker? hls
    refine ⟨tail, indentation line, indentation rest, allBlank_indentation line,
      allBlank_indentation rest, ?_⟩
    rw [← htail, indentation_append_trimStart, ← hrest, indentation_append_trimStart]
  · rintro ⟨tail, hl⟩
    obtain ⟨gap, hgap, htrim⟩ := hl.trimStart_eq h
    have hcolon : trimStart (gap ++ ':' :: tail) = [':'] ++ tail := by
      rw [trimStart_append_of_allBlank _ hgap]
      exact trimStart_cons_of_not_blank _ (by decide)
    exact ⟨_, by rw [lexMarker?, htrim, after?_append, Option.bind_some, hcolon, after?_append,
      Option.map_some]⟩

theorem exists_steps_lexCode_iff {line : List Char} :
    (∃ l ∈ lexCode lang line, l.kind = .steps) ↔ ∃ ls, lexMarker? lang line = some ls := by
  unfold lexCode
  cases hm : lexMarker? lang line with
  | none =>
      refine ⟨fun ⟨l, hl, hkind⟩ => ?_, nofun⟩
      have hscanned := ofLine_of_mem_lexFrom hl
      rw [hkind] at hscanned
      cases hscanned
  | some ls =>
      refine ⟨fun _ => ⟨ls, rfl⟩, fun _ => ⟨⟨.steps, lang.stepsKeyword⟩, ?_, rfl⟩⟩
      obtain ⟨rest, tail, -, -, rfl⟩ := exists_of_lexMarker? hm
      simp

/-- A line has the lexeme of the steps keyword exactly if it opens the steps. -/
theorem exists_steps_iff (h : lang.StepsApart) (ha : lang.CommentApart) {line : List Char} :
    (∃ l ∈ lexLine lang line, l.kind = .steps) ↔ ∃ tail, lang.OpensSteps line tail := by
  rw [← Language.exists_opensSteps_code_iff h ha, ← exists_lexMarker?_iff h,
    ← exists_steps_lexCode_iff]
  obtain ⟨comment, -, ⟨-, hls⟩ | ⟨-, hls⟩⟩ := exists_lexLine lang line
  · rw [hls]
  · simp [hls, or_and_right, exists_or]

/-! ## The first lexeme that is shown -/

theorem firstShown?_append (ls ms : List Lexeme) :
    firstShown? (ls ++ ms) = (firstShown? ls).or (firstShown? ms) :=
  List.find?_append

/-- A blank text has no lexeme that is shown. -/
theorem firstShown?_eq_none {ls : List Lexeme} (h : allBlank (flatten ls) = true) :
    firstShown? ls = none := by
  refine List.find?_eq_none.2 fun l hl => ?_
  have hblank : allBlank l.text = true := allBlank_iff.2 fun c hc =>
    allBlank_iff.1 h c (List.mem_flatMap.2 ⟨l, hl, hc⟩)
  simp [hblank]

theorem firstShown?_cons_of_not_blank {l : Lexeme} (ls : List Lexeme)
    (h : allBlank l.text = false) : firstShown? (l :: ls) = some l :=
  List.find?_cons_of_pos (by simp [h])

/-- On a line that opens the steps, the steps keyword comes first. -/
theorem firstShown?_of_lexMarker? (h : lang.StepsApart) {line : List Char} {ls : List Lexeme}
    (hm : lexMarker? lang line = some ls) :
    firstShown? (lexCode lang line) = some ⟨.steps, lang.stepsKeyword⟩ := by
  have hkeyword : allBlank lang.stepsKeyword = false := by
    obtain ⟨c, t, ht, hblank, -⟩ := h.head
    simp [allBlank, ht, hblank]
  rw [lexCode, hm, Option.getD_some]
  obtain ⟨rest, tail, -, -, rfl⟩ := exists_of_lexMarker? hm
  rw [List.append_assoc, firstShown?_append, firstShown?_eq_none, Option.none_or, List.cons_append,
    firstShown?_cons_of_not_blank _ hkeyword]
  rw [flatten_freeText]
  exact allBlank_indentation line

/-- On any other line, the lexeme behind the indentation comes first. -/
theorem firstShown?_of_trimStart {line s : List Char} {c : Char}
    (hm : lexMarker? lang line = none) (hs : trimStart line = c :: s) :
    firstShown? (lexCode lang line) = some ⟨(scan c s).1, c :: s.take (scan c s).2⟩ := by
  have hline := indentation_append_trimStart line
  rw [lexCode, hm, Option.getD_none, ← hline, hs]
  exact firstShown?_lexFrom s (allBlank_indentation line) (not_isBlank_of_trimStart_eq_cons hs)

/-- How a line may start behind its indentation, and the lexeme that is shown there. -/
inductive Start (lang : Language) (line : List Char) : Option Lexeme → Prop
  | blank (hcode : trimStart (lang.code line) = []) (hline : trimStart line = []) :
      Start lang line none
  | comment (hcode : trimStart (lang.code line) = []) (hc : lang.comment <+: trimStart line)
      (hne : lang.comment ≠ []) : Start lang line (some ⟨.comment, trimStart line⟩)
  | steps (rest : List Char) (hcode : trimStart (lang.code line) = lang.stepsKeyword ++ rest) :
      Start lang line (some ⟨.steps, lang.stepsKeyword⟩)
  | code (c : Char) (s : List Char) (hcode : trimStart (lang.code line) = c :: s) :
      Start lang line (some ⟨(scan c s).1, c :: s.take (scan c s).2⟩)

/-- What is shown first on a line is what it starts with. -/
theorem start_firstShown? (h : lang.StepsApart) (ha : lang.CommentApart) (line : List Char) :
    Start lang line (firstShown? (lexLine lang line)) := by
  obtain ⟨comment, hline, hls⟩ := exists_lexLine lang line
  cases hcode : trimStart (lang.code line) with
  | nil =>
      have hblank : allBlank (lang.code line) = true := trim_eq_nil.1 (by rw [trim, hcode]; rfl)
      have hnone : firstShown? (lexCode lang (lang.code line)) = none :=
        firstShown?_eq_none (by rw [flatten_lexCode]; exact hblank)
      rcases hls with ⟨rfl, hls⟩ | ⟨⟨hc, hne⟩, hls⟩
      · rw [hls, hnone]
        rw [List.append_nil] at hline
        exact .blank hcode (by rw [hline, hcode])
      · obtain ⟨d, hd, hdblank, -⟩ := ha.exists_head hne
        obtain ⟨t, rfl⟩ : ∃ t, comment = d :: t := by
          obtain ⟨u, hu⟩ := List.head?_eq_some_iff.1 hd
          obtain ⟨t, rfl⟩ := hc
          exact ⟨u ++ t, by rw [hu, List.cons_append]⟩
        have htrim : trimStart line = d :: t := by
          rw [hline, trimStart_append_of_allBlank _ hblank, trimStart_cons_of_not_blank _ hdblank]
        rw [hls, firstShown?_append, hnone, Option.none_or,
          firstShown?_cons_of_not_blank _ (by simp [allBlank, hdblank]), ← htrim]
        exact .comment hcode (by rw [htrim]; exact hc) hne
  | cons c s =>
      -- a comment behind the code is not reached
      have hfirst : ∀ l, firstShown? (lexCode lang (lang.code line)) = some l →
          firstShown? (lexLine lang line) = some l := fun l hl => by
        rcases hls with ⟨-, hls⟩ | ⟨-, hls⟩
        · rw [hls, hl]
        · rw [hls, firstShown?_append, hl, Option.some_or]
      cases hm : lexMarker? lang (lang.code line) with
      | some ls =>
          rw [hfirst _ (firstShown?_of_lexMarker? h hm)]
          obtain ⟨rest, tail, hrest, -⟩ := exists_of_lexMarker? hm
          exact .steps rest hrest
      | none =>
          rw [hfirst _ (firstShown?_of_trimStart hm hcode)]
          exact .code c s hcode

/-! ## Comment lines -/

/-- A line is a comment if the comment token stands behind its indentation. -/
theorem isComment_trim_iff (ha : lang.CommentApart) {line : List Char} :
    lang.isComment (trim line) = true ↔
      lang.comment ≠ [] ∧ lang.comment <+: trimStart line := by
  obtain hnil | ⟨hblank, -⟩ := ha
  · simp [Language.isComment, hnil]
  · obtain ⟨b, hb, hline⟩ := exists_trimEnd (trimStart line)
    have htrim : (after? lang.comment (trimStart line)).isSome =
        (after? lang.comment (trim line)).isSome := by
      conv => lhs; rw [hline]
      exact isSome_after?_append_of_allBlank _ hblank hb
    rw [Language.isComment_iff, ← isSome_after?_iff, ← isSome_after?_iff, htrim]

/-- A comment line has no code. -/
theorem trimStart_code_of_isComment (h : lang.StepsApart) (ha : lang.CommentApart)
    {line : List Char} (hc : lang.isComment (trim line) = true) :
    trimStart (lang.code line) = [] := by
  obtain ⟨hne, rest, hrest⟩ := (isComment_trim_iff ha).1 hc
  obtain ⟨d, hd, -, -⟩ := ha.exists_head hne
  obtain ⟨t, ht⟩ := List.head?_eq_some_iff.1 hd
  have hstarts : startsComment lang.comment .outside (lang.comment ++ rest) = true := by
    have hafter := after?_append lang.comment rest
    rw [ht, List.cons_append] at hafter ⊢
    simp [startsComment, hafter, (h.comment d hd).1, Nesting.isOutside, Nesting.outside]
  have hcut : lang.cutComment (trimStart line) = some ([], trimStart line) := by
    rw [Language.cutComment_of_comment_ne_nil hne, ← hrest]
    rw [ht, List.cons_append] at hstarts ⊢
    rw [cutCommentFrom, if_pos hstarts]
  have hcode : lang.code line = indentation line ++ [] := by
    conv => lhs; rw [← indentation_append_trimStart line]
    rw [ha.code_blank_append _ (allBlank_indentation line), Language.code, hcut]
  rw [hcode, trimStart_append_of_allBlank _ (allBlank_indentation line)]
  rfl

/-- The first lexeme that is shown is a comment exactly on a comment line. -/
theorem firstShown?_eq_comment_iff (h : lang.StepsApart) (ha : lang.CommentApart)
    {line : List Char} :
    (∃ text, firstShown? (lexLine lang line) = some ⟨.comment, text⟩) ↔
      lang.isComment (trim line) = true := by
  have hstart := start_firstShown? h ha line
  constructor
  · rintro ⟨text, hs⟩
    rw [hs] at hstart
    generalize hl : some (⟨.comment, text⟩ : Lexeme) = shown at hstart
    cases hstart with
    | blank => cases hl
    | comment hcode hc hne => exact (isComment_trim_iff ha).2 ⟨hne, hc⟩
    | steps rest hcode => cases hl
    | code c s hcode =>
        have hkind : TokenKind.comment = (scan c s).1 := congrArg Lexeme.kind (Option.some.inj hl)
        have hscanned := ofLine_kind_scan c s
        rw [← hkind] at hscanned
        cases hscanned
  · intro hc
    have hnone := trimStart_code_of_isComment h ha hc
    generalize hs : firstShown? (lexLine lang line) = shown at hstart
    cases hstart with
    | blank hcode hline =>
        obtain ⟨hne, hprefix⟩ := (isComment_trim_iff ha).1 hc
        rw [hline] at hprefix
        exact absurd (List.prefix_nil.1 hprefix) hne
    | comment hcode hc hne => exact ⟨_, rfl⟩
    | steps rest hcode =>
        obtain ⟨c, t, ht, -⟩ := h.head
        rw [hnone, ht] at hcode
        cases hcode
    | code c s hcode =>
        rw [hnone] at hcode
        cases hcode

/-! ## Command lines -/

/-- A command line starts with its keyword, as the lexer finds it. -/
theorem firstShown?_of_isCommandText (h : lang.StepsApart) (ha : lang.CommentApart)
    {line : List Char} {k : Keyword} (hk : Script.IsCommandText lang line k) :
    firstShown? (lexLine lang line) = some ⟨.command, k.spelling⟩ := by
  obtain ⟨rest, hcode, hends⟩ := hk.exists_code ha
  obtain ⟨b, hb, hstart⟩ := exists_trimEnd (trimStart (lang.code line))
  rw [← trim, hcode, List.append_assoc] at hstart
  have hends' : Keyword.endsBefore (rest ++ b) = true :=
    Keyword.endsBefore_append_of_allBlank hends hb
  have hline := start_firstShown? h ha line
  generalize firstShown? (lexLine lang line) = shown at hline
  obtain ⟨d, t, hd⟩ := List.exists_cons_of_ne_nil k.spelling_ne_nil
  cases hline with
  | blank hcode => simp [hstart, hd] at hcode
  | comment hcode => simp [hstart, hd] at hcode
  | steps rest hcode =>
      rw [hstart] at hcode
      exact absurd hcode (h.spelling_append_ne k _ _)
  | code c s hcode =>
      rw [hstart] at hcode
      have hat := Keyword.atStart?_spelling_append k hends'
      rw [hcode] at hat
      rw [scan_of_atStart? hat]

/-- Where a keyword is shown first, it stands at the start of the code. -/
theorem exists_code_of_firstShown? (h : lang.StepsApart) (ha : lang.CommentApart)
    {line : List Char} {k : Keyword}
    (hs : firstShown? (lexLine lang line) = some ⟨.command, k.spelling⟩) :
    ∃ rest, trimStart (lang.code line) = k.spelling ++ rest ∧
      Keyword.endsBefore rest = true := by
  have hstart := start_firstShown? h ha line
  rw [hs] at hstart
  generalize hl : some (⟨.command, k.spelling⟩ : Lexeme) = shown at hstart
  cases hstart with
  | blank => cases hl
  | comment => cases hl
  | steps => cases hl
  | code c s hcode =>
      have hlexeme := Option.some.inj hl
      obtain ⟨j, rest, hat⟩ := exists_atStart?_of_scan (congrArg Lexeme.kind hlexeme).symm
      rw [scan_of_atStart? hat] at hlexeme
      have hspelling : k.spelling = j.spelling := congrArg Lexeme.text hlexeme
      rw [hcode, hspelling]
      exact ⟨rest, Keyword.eq_of_atStart? hat⟩

/-- A trimmed text that starts with a keyword which may end there is a command line. -/
theorem isCommandText_of_trim (h : lang.StepsApart) (ha : lang.CommentApart) {line : List Char}
    {k : Keyword} {rest : List Char} (htrim : trim line = k.spelling ++ rest)
    (hends : Keyword.endsBefore rest = true) : Script.IsCommandText lang line k where
  not_marker := by
    rw [← Bool.not_eq_true]
    intro hm
    obtain ⟨tail, hkeyword, -⟩ := Language.exists_of_isMarker hm
    exact h.spelling_append_ne k _ _ (htrim.symm.trans hkeyword)
  stepClass_eq := by
    obtain ⟨c, t, hc⟩ := List.exists_cons_of_ne_nil k.spelling_ne_nil
    have hempty : (trim line).isEmpty = false := by simp [htrim, hc]
    have hcomment : lang.isComment (trim line) = false := by
      rw [← Bool.not_eq_true]
      intro hcm
      obtain ⟨d, hd, hline⟩ := Language.exists_head_of_isComment hcm
      obtain ⟨e, he, -, hk⟩ := ha.exists_head (Language.isComment_iff.1 hcm).1
      obtain rfl : d = e := Option.some.inj (hd.symm.trans he)
      rw [htrim, hc] at hline
      obtain rfl : c = d := Option.some.inj hline
      exact hk k (by rw [hc]; exact List.mem_cons_self)
    have hat := Keyword.atStart?_spelling_append k hends
    rw [← htrim] at hat
    simp [Script.stepClass, hempty, hcomment, hat]

/-- A line on which a keyword is shown first is a command line, unless the comment token stands right
behind the keyword. -/
theorem isCommandText_of_firstShown? (h : lang.StepsApart) (ha : lang.CommentApart)
    {line : List Char} {k : Keyword}
    (hs : firstShown? (lexLine lang line) = some ⟨.command, k.spelling⟩)
    (hbehind : ¬ k.spelling ++ lang.comment <+: trim line) :
    Script.IsCommandText lang line k := by
  obtain ⟨rest, hcode, hends⟩ := exists_code_of_firstShown? h ha hs
  obtain ⟨comment, hline, hcomment⟩ := exists_lexLine lang line
  have htrim : trim line = k.spelling ++ trimEnd (rest ++ comment) := by
    have hwhole : line = indentation (lang.code line) ++ (k.spelling ++ (rest ++ comment)) ++ [] := by
      rw [List.append_nil, ← List.append_assoc k.spelling, ← hcode, ← List.append_assoc,
        indentation_append_trimStart, ← hline]
    conv => lhs; rw [hwhole]
    rw [trim_blank_append_blank _ (allBlank_indentation _) allBlank_nil,
      Keyword.trim_spelling_append]
  refine isCommandText_of_trim h ha htrim ?_
  cases rest with
  | cons c rest =>
      obtain ⟨b, -, hb⟩ := exists_trimEnd (c :: rest ++ comment)
      exact Keyword.endsBefore_of_prefixed (t := c :: rest ++ comment) ⟨b, hb.symm⟩ hends
  | nil =>
      rcases hcomment with ⟨rfl, -⟩ | ⟨⟨hc, hne⟩, -⟩
      · rfl
      -- the comment would stand right behind the keyword
      · refine absurd ?_ hbehind
        obtain ⟨b, hb, heq⟩ := exists_trimEnd comment
        obtain hnil | ⟨hblank, -⟩ := ha
        · exact absurd hnil hne
        · rw [← isSome_after?_iff, heq, isSome_after?_append_of_allBlank _ hblank hb,
            isSome_after?_iff] at hc
          rw [htrim]
          exact (List.prefix_append_right_inj _).2 hc

end Lexer

namespace Script

variable {lang : Language}

/-! ## Classes by position -/

theorem stepClass_ne_marker (line : List Char) : stepClass lang line ≠ .marker := by
  unfold stepClass
  repeat' split
  all_goals nofun

/-- The class of a line, where `inSteps` says whether a marker came before. -/
def classAt (lang : Language) (inSteps : Bool) (line : List Char) : LineClass :=
  if lang.isMarker (trim line) then .marker
  else if inSteps then stepClass lang (trim line)
  else .header

theorem classifyFrom_cons (inSteps : Bool) (line : List Char) (rest : List (List Char)) :
    classifyFrom lang inSteps (line :: rest) =
      (line, classAt lang inSteps line) ::
        classifyFrom lang (inSteps || lang.isMarker (trim line)) rest := by
  rw [classifyFrom, classAt]
  cases hm : lang.isMarker (trim line) <;> cases inSteps <;> rfl

theorem class_eq_of_classifyFrom {inSteps : Bool} {lines : List (List Char)} {i : Nat}
    {line : List Char} {cls : LineClass}
    (h : (classifyFrom lang inSteps lines)[i]? = some (line, cls)) :
    cls = classAt lang (inSteps || anyMarker lang (lines.take i)) line := by
  induction lines generalizing inSteps i with
  | nil => simp [classifyFrom] at h
  | cons first rest ih =>
      rw [classifyFrom_cons] at h
      cases i with
      | zero =>
          obtain ⟨rfl, rfl⟩ := Prod.mk.inj (Option.some.inj h)
          simp [anyMarker]
      | succ i =>
          rw [ih h, List.take_succ_cons, anyMarker_cons, Bool.or_assoc]

theorem getElem?_splitLines_of_classify {script : List Char} {i : Nat} {line : List Char}
    {cls : LineClass} (h : (classify lang script)[i]? = some (line, cls)) :
    (splitLines script)[i]? = some line := by
  rw [← texts_classify lang script, List.getElem?_map, h]
  rfl

/-- A line behind a marker is classified as a step. -/
def AfterMarker (lang : Language) (script : List Char) (i : Nat) : Prop :=
  ∃ j < i, ∃ marker, (classify lang script)[j]? = some (marker, .marker)

theorem eq_marker_iff_isMarker {script : List Char} {i : Nat} {line : List Char} {cls : LineClass}
    (h : (classify lang script)[i]? = some (line, cls)) :
    cls = .marker ↔ lang.isMarker (trim line) = true := by
  rw [class_eq_of_classifyFrom h, classAt]
  constructor
  · intro hmarker
    split at hmarker
    · assumption
    · split at hmarker
      · exact absurd hmarker (stepClass_ne_marker _)
      · cases hmarker
  · intro hm
    rw [if_pos hm]

theorem class_eq_of_afterMarker {script : List Char} {i : Nat} {line : List Char}
    {cls : LineClass} (h : (classify lang script)[i]? = some (line, cls))
    (hafter : AfterMarker lang script i) :
    cls = if lang.isMarker (trim line) then .marker else stepClass lang (trim line) := by
  obtain ⟨j, hj, marker, hmarker⟩ := hafter
  have hany : anyMarker lang ((splitLines script).take i) = true := by
    refine List.any_eq_true.2 ⟨marker, ?_, (eq_marker_iff_isMarker hmarker).1 rfl⟩
    refine List.mem_of_getElem? (i := j) ?_
    rw [List.getElem?_take_of_lt hj]
    exact getElem?_splitLines_of_classify hmarker
  rw [class_eq_of_classifyFrom h, hany]
  rfl

/-! ## Roles -/

/-- What the lexemes `ls` of a line say of its class, wherever it stands: the steps keyword is shown
as such exactly if the line opens the steps, and the line is a marker if moreover nothing but blanks
follows. -/
structure ShowsMarker (lang : Language) (line : List Char) (cls : LineClass)
    (ls : List Lexeme) : Prop where
  steps_iff : (∃ l ∈ ls, l.kind = .steps) ↔ ∃ tail, lang.OpensSteps line tail
  marker_iff : cls = .marker ↔ ∃ tail, lang.OpensSteps line tail ∧ allBlank tail = true

/-- What the first lexeme that is not blank says of a line among the steps. -/
structure ShowsClass (lang : Language) (line : List Char) (cls : LineClass)
    (ls : List Lexeme) : Prop where
  /-- A command line shows its keyword first. -/
  command : ∀ k, cls = .command k → Lexer.firstShown? ls = some ⟨.command, k.spelling⟩
  /-- A line that shows a keyword first is a command line, unless the comment token stands right
  behind the keyword. -/
  of_command : ∀ k : Keyword, Lexer.firstShown? ls = some ⟨.command, k.spelling⟩ →
    ¬ k.spelling ++ lang.comment <+: trim line → cls = .command k
  comment_iff : (∃ text, Lexer.firstShown? ls = some ⟨.comment, text⟩) ↔ cls = .comment

theorem showsMarker_lexLine (h : lang.StepsApart) (ha : lang.CommentApart) {script : List Char}
    {i : Nat} {line : List Char} {cls : LineClass}
    (hi : (classify lang script)[i]? = some (line, cls)) :
    ShowsMarker lang line cls (Lexer.lexLine lang line) where
  steps_iff := Lexer.exists_steps_iff h ha
  marker_iff := (eq_marker_iff_isMarker hi).trans (Language.isMarker_trim_iff h)

/-- Among the steps, a line is classified as a command exactly if it is a command line. -/
theorem eq_command_iff {script : List Char} {i : Nat} {line : List Char} {cls : LineClass}
    (hi : (classify lang script)[i]? = some (line, cls)) (hafter : AfterMarker lang script i)
    {k : Keyword} : cls = .command k ↔ IsCommandText lang line k := by
  rw [class_eq_of_afterMarker hi hafter]
  constructor
  · intro hcls
    split at hcls
    · cases hcls
    · next hm => exact ⟨by simpa using hm, hcls⟩
  · rintro ⟨hm, hstep⟩
    rw [if_neg (by simp [hm]), hstep]

/-- Among the steps, a line is classified as a comment exactly if it is one. -/
theorem eq_comment_iff (h : lang.StepsApart) {script : List Char} {i : Nat} {line : List Char}
    {cls : LineClass} (hi : (classify lang script)[i]? = some (line, cls))
    (hafter : AfterMarker lang script i) :
    cls = .comment ↔ lang.isComment (trim line) = true := by
  rw [class_eq_of_afterMarker hi hafter]
  constructor
  · intro hcls
    split at hcls
    · cases hcls
    · unfold stepClass at hcls
      split at hcls
      · cases hcls
      · split at hcls
        · assumption
        · split at hcls <;> cases hcls
  · intro hc
    obtain ⟨d, hd, hline⟩ := Language.exists_head_of_isComment hc
    -- a marker starts with the steps keyword, in which no comment starts
    have hm : lang.isMarker (trim line) = false := by
      rw [← Bool.not_eq_true]
      intro hm
      obtain ⟨rest, hrest, -⟩ := Language.exists_of_isMarker hm
      obtain ⟨c, t, ht, -⟩ := h.head
      rw [hrest, ht] at hline
      obtain rfl : c = d := Option.some.inj hline
      exact (h.comment c hd).2.1 (by rw [ht]; exact List.mem_cons_self)
    have hempty : (trim line).isEmpty = false := by
      cases ht : trim line with
      | nil => simp [ht] at hline
      | cons => rfl
    simp [hm, stepClass, hempty, hc]

theorem showsClass_lexLine (h : lang.StepsApart) (ha : lang.CommentApart) {script : List Char}
    {i : Nat} {line : List Char} {cls : LineClass}
    (hi : (classify lang script)[i]? = some (line, cls)) (hafter : AfterMarker lang script i) :
    ShowsClass lang line cls (Lexer.lexLine lang line) where
  command := fun _ hcls => Lexer.firstShown?_of_isCommandText h ha ((eq_command_iff hi hafter).1 hcls)
  of_command := fun _ hs hbehind =>
    (eq_command_iff hi hafter).2 (Lexer.isCommandText_of_firstShown? h ha hs hbehind)
  comment_iff := (Lexer.firstShown?_eq_comment_iff h ha).trans (eq_comment_iff h hi hafter).symm

/-- **The lexemes of a line show its role**, for every line of every script in the built-in
language. -/
theorem showsRole_of_classify {script : List Char} {i : Nat} {line : List Char} {cls : LineClass}
    (hi : (classify .standard script)[i]? = some (line, cls)) :
    ∃ ls, (Lexer.lexemesByLine .standard script)[i]? = some ls ∧
      ShowsMarker .standard line cls ls ∧
        (AfterMarker .standard script i → ShowsClass .standard line cls ls) := by
  have h := Language.stepsApart_standard
  have ha := Language.commentApart_standard
  refine ⟨Lexer.lexLine .standard line, ?_, showsMarker_lexLine h ha hi,
    showsClass_lexLine h ha hi⟩
  rw [Lexer.lexemesByLine_eq, List.getElem?_map, getElem?_splitLines_of_classify hi]
  rfl

/-- An indented command with a comment, in a script that has text behind the colon of its first
line, and a comment behind the keyword of its last one. -/
theorem showsRole_of_classify_command :
    (classify .standard "步骤: x\n步骤 :\n  点击 [a] # c\n点击#c".toList)[2]? =
        some ("  点击 [a] # c".toList, .command .click) ∧
      ∃ ls, (Lexer.lexemesByLine .standard "步骤: x\n步骤 :\n  点击 [a] # c\n点击#c".toList)[2]? =
          some ls ∧
        ShowsMarker .standard "  点击 [a] # c".toList (.command .click) ls ∧
          (AfterMarker .standard "步骤: x\n步骤 :\n  点击 [a] # c\n点击#c".toList 2 →
            ShowsClass .standard "  点击 [a] # c".toList (.command .click) ls) :=
  ⟨by decide, showsRole_of_classify (by decide)⟩

/-! ## Full agreement -/

/-- The lexemes of a line and its class say the same throughout: the steps keyword is shown as such on
the markers and on no other line, and among the steps the first lexeme that is not blank is a keyword
on its command lines and on no others, and a comment on the comment lines and on no others. -/
def RolesAgree (lang : Language) (script : List Char) : Prop :=
  ∀ i line cls ls, (classify lang script)[i]? = some (line, cls) →
    (Lexer.lexemesByLine lang script)[i]? = some ls →
      ((∃ l ∈ ls, l.kind = .steps) ↔ cls = .marker) ∧
        (AfterMarker lang script i →
          (∀ k : Keyword, Lexer.firstShown? ls = some ⟨.command, k.spelling⟩ ↔
            cls = .command k) ∧
          ((∃ text, Lexer.firstShown? ls = some ⟨.comment, text⟩) ↔ cls = .comment))

/-- A line with text behind the colon shows the steps keyword, and is no marker. -/
theorem not_rolesAgree_text_behind_colon :
    ¬ RolesAgree .standard "步骤: 点击".toList := by
  intro hagree
  have hclass : (classify .standard "步骤: 点击".toList)[0]? =
      some ("步骤: 点击".toList, .header) := by decide
  have hlexemes : (Lexer.lexemesByLine .standard "步骤: 点击".toList)[0]? =
      some [⟨.steps, "步骤".toList⟩, ⟨.text, [':']⟩, ⟨.text, " 点击".toList⟩] := by
    rw [Lexer.lexemesByLine_eq]
    rfl
  have hiff := (hagree 0 _ _ _ hclass hlexemes).1
  exact LineClass.noConfusion (hiff.1 ⟨_, List.mem_cons_self, rfl⟩)

end Script

end StepScript
