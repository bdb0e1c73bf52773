import StepScript.Proofs.CommandText
import StepScript.Token.Lexer

/-!
# The lexemes of a line

The lexemes of a text are those of its lines, with the ends of lines between them; so they can be cut
into the lexemes of each line again. Within a line, blanks are lexemes of their own, and the first
lexeme that is not blank is the one that is scanned where the line, less its indentation, starts.

Main statements:

* `Lexer.lexemesByLine_eq` — the lexemes of a text, line by line;
* `Lexer.exists_lexLine` — the lexemes of a line are those of its code, and the comment;
* `Lexer.firstShown?_lexFrom` — the first lexeme of a text that is not blank;
* `Lexer.scan_of_atStart?` — where a keyword is found, it is a lexeme.
-/

set_option autoImplicit false

namespace StepScript

open Text

/-- Whether lexemes of a kind are given to a line as a whole, and never scanned within it. -/
def TokenKind.ofLine : TokenKind → Bool
  | .comment | .steps | .newline => true
  | _ => false

namespace Lexer

variable {lang : Language}

/-! ## Line by line -/

theorem ofLine_kind_scan (c : Char) (s : List Char) : (scan c s).1.ofLine = false := by
  unfold scan
  dsimp only
  split
  · rfl
  · split <;> rfl
  · rfl
  · split
    · rfl
    · rfl
    · repeat' split
      all_goals rfl

theorem ofLine_of_mem_lexFrom {suffix : Bool} {s : List Char} {l : Lexeme}
    (h : l ∈ lexFrom suffix s) : l.kind.ofLine = false := by
  fun_induction lexFrom suffix s with
  | case1 => cases h
  | case2 suffix c s n hn ih =>
      rcases List.mem_cons.1 h with rfl | h
      · rfl
      · exact ih h
  | case3 suffix c s hn kind n hs ih =>
      rcases List.mem_cons.1 h with rfl | h
      · have hkind := ofLine_kind_scan c s
        rw [hs] at hkind
        exact hkind
      · exact ih h

theorem exists_of_lexMarker? {line : List Char} {ls : List Lexeme}
    (h : lexMarker? lang line = some ls) :
    ∃ rest tail, trimStart line = lang.stepsKeyword ++ rest ∧ trimStart rest = ':' :: tail ∧
      ls = freeText (indentation line) ++
        ⟨.steps, lang.stepsKeyword⟩ :: freeText (indentation rest) ++
          ⟨.text, [':']⟩ :: freeText tail := by
  obtain ⟨rest, hrest, h⟩ := Option.bind_eq_some_iff.1 h
  obtain ⟨tail, htail, rfl⟩ := Option.map_eq_some_iff.1 h
  exact ⟨rest, tail, after?_eq_some.1 hrest, after?_eq_some.1 htail, rfl⟩

/-- The lexemes of a line that starts with the steps keyword and a colon are that keyword and free
text. -/
theorem kind_of_mem_lexMarker? {line : List Char} {ls : List Lexeme}
    (h : lexMarker? lang line = some ls) {l : Lexeme} (hl : l ∈ ls) :
    l.kind = .text ∨ l = ⟨.steps, lang.stepsKeyword⟩ := by
  have hfree : ∀ s, l ∈ freeText s → l.kind = .text := by
    intro s hs
    unfold freeText at hs
    split at hs
    · cases hs
    · rw [List.mem_singleton.1 hs]
  obtain ⟨rest, tail, -, -, rfl⟩ := exists_of_lexMarker? h
  simp only [List.mem_append, List.mem_cons] at hl
  rcases hl with (hl | rfl | hl) | rfl | hl
  · exact Or.inl (hfree _ hl)
  · exact Or.inr rfl
  · exact Or.inl (hfree _ hl)
  · exact Or.inl rfl
  · exact Or.inl (hfree _ hl)

/-- Of what is given to a line as a whole, only the steps keyword is in the code. -/
theorem kind_of_mem_lexCode {line : List Char} {l : Lexeme} (h : l ∈ lexCode lang line) :
    l.kind.ofLine = false ∨ l.kind = .steps := by
  unfold lexCode at h
  cases hm : lexMarker? lang line with
  | none =>
      rw [hm] at h
      exact Or.inl (ofLine_of_mem_lexFrom h)
  | some ls =>
      rw [hm] at h
      rcases kind_of_mem_lexMarker? hm h with hkind | rfl
      · rw [hkind]
        exact Or.inl rfl
      · exact Or.inr rfl

theorem kind_ne_newline_of_mem_lexLine {line : List Char} {l : Lexeme}
    (h : l ∈ lexLine lang line) : l.kind ≠ .newline := by
  have hcode : ∀ code, l ∈ lexCode lang code → l.kind ≠ .newline := by
    intro code hl hkind
    have hof := kind_of_mem_lexCode hl
    rw [hkind] at hof
    rcases hof with hof | hof <;> cases hof
  unfold lexLine at h
  split at h
  · rcases List.mem_append.1 h with h | h
    · exact hcode _ h
    · rw [List.mem_singleton.1 h]
      nofun
  · exact hcode _ h

/-- The tokens of a text, less their places, cut at the ends of lines. -/
def lexemesByLine (lang : Language) (s : List Char) : List (List Lexeme) :=
  ((Token.ofText lang s).map (·.toLexeme)).splitOnP fun l => l.kind == .newline

/-- The lexemes of a text are, line by line, those of its lines. -/
theorem lexemesByLine_eq (lang : Language) (s : List Char) :
    lexemesByLine lang s = (splitLines s).map (lexLine lang) := by
  have hlines : ∀ lines : List (List Char), lines ≠ [] →
      (lexLines lang lines).splitOnP (fun l => l.kind == .newline) =
        lines.map (lexLine lang) := by
    intro lines hne
    induction lines with
    | nil => exact absurd rfl hne
    | cons line rest ih =>
        have hline : ∀ l ∈ lexLine lang line, (l.kind == .newline) = false := fun l hl => by
          simpa using kind_ne_newline_of_mem_lexLine hl
        cases rest with
        | nil => exact List.splitOnP_eq_singleton hline
        | cons next rest =>
            rw [lexLines, List.splitOnP_append_cons_of_forall_mem hline _ rfl,
              ih (List.cons_ne_nil next rest)]
            · rfl
            · exact List.cons_ne_nil next rest
  rw [lexemesByLine, Token.ofText, Token.texts_place]
  exact hlines _ (splitLines_ne_nil s)

/-! ## Code and comment -/

/-- The lexemes of a line are those of its code, and then the comment, if there is one. -/
theorem exists_lexLine (lang : Language) (line : List Char) :
    ∃ comment, line = lang.code line ++ comment ∧
      (comment = [] ∧ lexLine lang line = lexCode lang (lang.code line) ∨
        (lang.comment <+: comment ∧ lang.comment ≠ []) ∧
          lexLine lang line = lexCode lang (lang.code line) ++ [⟨.comment, comment⟩]) := by
  unfold lexLine Language.code
  cases h : lang.cutComment line with
  | none => exact ⟨[], by simp, Or.inl ⟨rfl, rfl⟩⟩
  | some p =>
      obtain ⟨code, comment⟩ := p
      refine ⟨comment, Language.eq_of_cutComment h, Or.inr ⟨?_, rfl⟩⟩
      unfold Language.cutComment at h
      split at h
      · cases h
      · next hne =>
        have hstarts := (eq_of_cutCommentFrom h).2
        cases comment with
        | nil => cases hstarts
        | cons c s =>
            rw [startsComment, Bool.and_eq_true] at hstarts
            exact ⟨isSome_after?_iff.1 hstarts.2, by simpa using hne⟩

/-! ## The first lexeme that is shown -/

/-- The first lexeme that is not blank. -/
def firstShown? (ls : List Lexeme) : Option Lexeme :=
  ls.find? fun l => !allBlank l.text

theorem ne_of_isBlank {c d : Char} (hc : isBlank c = true) (hd : isBlank d = false) : d ≠ c := by
  rintro rfl
  rw [hc] at hd
  cases hd

/-- A word is not found where the text starts with another character. -/
theorem wordLength?_eq_none {words : List (List Char)} {c : Char} (s : List Char)
    (h : ∀ w ∈ words, ∃ d t, w = d :: t ∧ d ≠ c) : wordLength? words (c :: s) = none := by
  refine List.findSome?_eq_none_iff.2 fun w hw => ?_
  obtain ⟨d, t, rfl, hne⟩ := h w hw
  simp [after?, hne]

/-- No keyword starts with a character that is in no spelling. -/
theorem atStart?_cons_eq_none {c : Char} (s : List Char) (h : ∀ k : Keyword, c ∉ k.spelling) :
    Keyword.atStart? (c :: s) = none := by
  cases hs : Keyword.atStart? (c :: s) with
  | none => rfl
  | some found =>
      obtain ⟨k, rest⟩ := found
      obtain ⟨d, t, hk⟩ := List.exists_cons_of_ne_nil k.spelling_ne_nil
      have heq := (Keyword.eq_of_atStart? hs).1
      rw [hk, List.cons_append] at heq
      obtain ⟨rfl, -⟩ := List.cons.inj heq
      exact absurd (by rw [hk]; exact List.mem_cons_self) (h k)

/-- A blank is a lexeme of its own. -/
theorem scan_of_isBlank {c : Char} (s : List Char) (h : isBlank c = true) :
    scan c s = (.text, 0) := by
  have hkeyword : Keyword.atStart? (c :: s) = none := atStart?_cons_eq_none s fun k hk => by
    rw [Keyword.isBlank_of_mem_spelling hk] at h
    cases h
  have hwords : ∀ words : List (List Char),
      (words.all fun w => w.head?.any fun d => !isBlank d) = true →
        wordLength? words (c :: s) = none := by
    intro words hall
    refine wordLength?_eq_none s fun w hw => ?_
    have hhead := List.all_eq_true.1 hall w hw
    cases w with
    | nil => cases hhead
    | cons d t => exact ⟨d, t, rfl, ne_of_isBlank h (by simpa using hhead)⟩
  have hdirection := hwords (Direction.all.map (·.spelling)) (by decide)
  have hstate := hwords (AssertionState.all.map (·.spelling)) (by decide)
  have hat : '@' ≠ c := ne_of_isBlank h (by decide)
  have hbrace : '\x7b' ≠ c := ne_of_isBlank h (by decide)
  have hequals : '=' ≠ c := ne_of_isBlank h (by decide)
  have hopen : c ≠ '[' := (ne_of_isBlank h (by decide)).symm
  have hclose : c ≠ ']' := (ne_of_isBlank h (by decide)).symm
  have hcomma : c ≠ ',' := (ne_of_isBlank h (by decide)).symm
  have hdigit : c.isDigit = false := by
    rw [← Bool.not_eq_true]
    intro hd
    simp [Char.isDigit, UInt32.le_iff_toNat_le] at hd
    simp [isBlank, blankRanges] at h
    have hval : c.toNat = c.val.toNat := rfl
    omega
  simp [scan, after?, hkeyword, hdirection, hstate, hat, hbrace, hequals, hopen, hclose, hcomma,
    hdigit]

theorem lexFrom_cons (c : Char) (s : List Char) :
    lexFrom false (c :: s) = ⟨(scan c s).1, c :: s.take (scan c s).2⟩ ::
      lexFrom (takesStrategy (scan c s).1) (s.drop (scan c s).2) := by
  rw [lexFrom]
  rfl

/-- The first lexeme of a text that is not blank is the one that is scanned behind the
indentation. -/
theorem firstShown?_lexFrom {a : List Char} {c : Char} (s : List Char) (ha : allBlank a = true)
    (hc : isBlank c = false) :
    firstShown? (lexFrom false (a ++ c :: s)) =
      some ⟨(scan c s).1, c :: s.take (scan c s).2⟩ := by
  induction a with
  | nil =>
      rw [List.nil_append, lexFrom_cons, firstShown?]
      simp [allBlank, hc]
  | cons b a ih =>
      obtain ⟨hb, ha⟩ : isBlank b = true ∧ allBlank a = true := by
        simpa [allBlank] using ha
      rw [List.cons_append, lexFrom_cons, scan_of_isBlank _ hb, firstShown?,
        List.find?_cons_of_neg (by simp [allBlank, hb])]
      exact ih ha

/-- Where a keyword is found at the start, it is the lexeme. -/
theorem scan_of_atStart? {c : Char} {s rest : List Char} {k : Keyword}
    (h : Keyword.atStart? (c :: s) = some (k, rest)) :
    (⟨(scan c s).1, c :: s.take (scan c s).2⟩ : Lexeme) = ⟨.command, k.spelling⟩ := by
  obtain ⟨d, t, hk⟩ := List.exists_cons_of_ne_nil k.spelling_ne_nil
  have heq := (Keyword.eq_of_atStart? h).1
  rw [hk, List.cons_append] at heq
  obtain ⟨rfl, rfl⟩ := List.cons.inj heq
  -- no picture and no locator starts where a keyword does
  have hplain : ∀ e : Char, (∀ j : Keyword, e ∉ j.spelling) → e ≠ c := by
    rintro e he rfl
    exact he k (by rw [hk]; exact List.mem_cons_self)
  have hat : '@' ≠ c := hplain _ fun j => by cases j <;> decide
  have hbrace : '\x7b' ≠ c := hplain _ fun j => by cases j <;> decide
  simp [scan, after?, h, hat, hbrace, hk]

/-- Only a keyword at the start is shown as one. -/
theorem exists_atStart?_of_scan {c : Char} {s : List Char} (h : (scan c s).1 = .command) :
    ∃ k rest, Keyword.atStart? (c :: s) = some (k, rest) := by
  cases hs : Keyword.atStart? (c :: s) with
  | some found => exact ⟨found.1, found.2, rfl⟩
  | none =>
      exfalso
      unfold scan at h
      dsimp only at h
      split at h
      · cases h
      · split at h <;> cases h
      · next hk =>
        rw [hs] at hk
        cases hk
      · revert h
        repeat' split
        all_goals nofun

end Lexer

end StepScript
