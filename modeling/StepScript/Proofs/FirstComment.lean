import Mathlib.Data.List.Chain
import Mathlib.Data.List.Induction
import Mathlib.Order.Bounds.Basic
import StepScript.Proofs.TokenCover
import StepScript.Proofs.Uncommented

/-!
# The first comment of a line

A comment may start where its token stands outside braces and outside a list, unless the token
itself starts with a brace or a bracket. What is open at a place hangs on the text in front of it
alone, and a token that fits into a shorter text also fits into a longer one. So the search of a
line finds the first such place, and finds nothing in what stands in front of it: the walk over a
line calls itself at most once.

Main statements:

* `Nesting.isOutside_after_iff` — what is open behind a text, said without the scan;
* `exists_cutCommentFrom` — a comment is found no later than any place where one may start;
* `ByteLexer.commentStart?_eq_some_iff` — the search finds the first place;
* `ByteLexer.map_fst_lexLineCounted?`, `ByteLexer.calls_le_and_eq_one_iff` — how often the walk over
  a line calls itself;
* `Token.place_lexLine` — where the comment is among the tokens of a line;
* `ByteLexer.shallowSearch` — what is promised of the search, of the calls, and of the comments
  among the tokens.
-/

set_option autoImplicit false

namespace StepScript

open Text Parameter

/-! ## Open lists -/

/-- A list is **open** behind a text: a bracket outside braces opens it, and no bracket outside
braces closes it. -/
def ListOpen (s : List Char) : Prop :=
  ∃ before inside, s = before ++ '[' :: inside ∧ braceDepth 0 before = 0 ∧
    ∀ front back, inside = front ++ ']' :: back → braceDepth 0 front ≠ 0

/-- Behind a bracket that is outside braces, the braces are counted from the bracket on. -/
theorem braceDepth_append_bracket {before : List Char} (h : braceDepth 0 before = 0)
    (inside : List Char) : braceDepth 0 (before ++ '[' :: inside) = braceDepth 0 inside := by
  rw [braceDepth_append, h]
  rfl

/-- A character that stands in a text with one more character is the last one, or stands in front of
it. -/
theorem concat_eq_append_cons {s before behind : List Char} {c d : Char}
    (h : s ++ [c] = before ++ d :: behind) :
    (behind = [] ∧ s = before ∧ c = d) ∨
      ∃ behind', behind = behind' ++ [c] ∧ s = before ++ d :: behind' := by
  rcases List.eq_nil_or_concat behind with rfl | ⟨behind, e, rfl⟩
  · obtain ⟨rfl, hc⟩ := List.append_inj' h rfl
    exact Or.inl ⟨rfl, rfl, List.singleton_inj.1 hc⟩
  · have hassoc : s ++ [c] = (before ++ d :: behind) ++ [e] := by simpa using h
    obtain ⟨rfl, hc⟩ := List.append_inj' hassoc rfl
    exact Or.inr ⟨behind, by rw [List.concat_eq_append, List.singleton_inj.1 hc], rfl⟩

/-- One more character opens a list, or leaves one open that it does not close. -/
theorem listOpen_concat_iff (s : List Char) (c : Char) :
    ListOpen (s ++ [c]) ↔ (c = '[' ∧ braceDepth 0 s = 0) ∨
      (ListOpen s ∧ ¬ (c = ']' ∧ braceDepth 0 s = 0)) := by
  constructor
  · rintro ⟨before, inside, heq, hbefore, hinside⟩
    rcases concat_eq_append_cons heq with ⟨-, rfl, rfl⟩ | ⟨inside, rfl, rfl⟩
    · exact Or.inl ⟨rfl, hbefore⟩
    · refine Or.inr ⟨⟨before, inside, rfl, hbefore, fun front back h => ?_⟩, ?_⟩
      · exact hinside front (back ++ [c]) (by simp [h])
      · rintro ⟨rfl, hdepth⟩
        rw [braceDepth_append_bracket hbefore] at hdepth
        exact hinside inside [] rfl hdepth
  · rintro (⟨rfl, hs⟩ | ⟨⟨before, inside, rfl, hbefore, hinside⟩, hc⟩)
    · exact ⟨s, [], rfl, hs, by simp⟩
    · refine ⟨before, inside ++ [c], by simp, hbefore, fun front back h => ?_⟩
      rcases concat_eq_append_cons h with ⟨-, rfl, hclose⟩ | ⟨back, -, hfront⟩
      · rw [braceDepth_append_bracket hbefore] at hc
        exact fun hdepth => hc ⟨hclose, hdepth⟩
      · exact hinside front back hfront

namespace Nesting

theorem inList_next_iff (n : Nesting) (c : Char) :
    (n.next c).inList = true ↔
      (c = '[' ∧ n.depth = 0) ∨ (n.inList = true ∧ ¬ (c = ']' ∧ n.depth = 0)) := by
  unfold next
  split
  · next h => simp [h]
  · split
    · next h => simp [h]
    · split
      · next h => simp [h]
      · split
        · next h => simp [h]
        · next hopen hclose => simp [hopen, hclose]

/-- The scan has a list open exactly if one is open behind the text. -/
theorem inList_after_iff (s : List Char) : (outside.after s).inList = true ↔ ListOpen s := by
  induction s using List.reverseRecOn with
  | nil =>
      have hnil : ¬ ListOpen [] := by
        rintro ⟨before, inside, heq, -⟩
        simp at heq
      exact iff_of_false Bool.false_ne_true hnil
  | append_singleton s c ih =>
      have hdepth : (outside.after s).depth = braceDepth 0 s := depth_after outside s
      rw [after_append, after_cons, after_nil, inList_next_iff, ih, hdepth, listOpen_concat_iff]

/-- Nothing is open behind a text exactly if no brace and no list is. -/
theorem isOutside_after_iff (s : List Char) :
    (outside.after s).isOutside = true ↔ braceDepth 0 s = 0 ∧ ¬ ListOpen s := by
  have hdepth : (outside.after s).depth = braceDepth 0 s := depth_after outside s
  rw [isOutside, hdepth, ← inList_after_iff]
  simp

end Nesting

/-! ## The first place -/

section

variable {token : List Char} {n : Nesting}

/-- Where a comment starts, said of its token. -/
theorem startsComment_iff (hne : token ≠ []) (s : List Char) :
    startsComment token n s = true ↔
      n.isOutside = true ∧ token <+: s ∧ ∃ c, token.head? = some c ∧ isDelimiter c = false := by
  obtain ⟨d, t, rfl⟩ := List.exists_cons_of_ne_nil hne
  cases s with
  | nil => simp [startsComment]
  | cons c s =>
      rw [startsComment, Bool.and_eq_true, Bool.and_eq_true, isSome_after?_iff, and_assoc]
      refine and_congr_right fun _ => ?_
      rw [and_comm]
      refine and_congr_right fun hprefix => ?_
      obtain ⟨rfl, -⟩ := List.cons_prefix_cons.1 hprefix
      simp

/-- A comment is found no later than any place where one may start. -/
theorem exists_cutCommentFrom {front back : List Char}
    (h : startsComment token (n.after front) back = true) :
    ∃ code comment, cutCommentFrom token n (front ++ back) = some (code, comment) ∧
      code <+: front := by
  induction front generalizing n with
  | nil =>
      obtain ⟨c, s, rfl⟩ : ∃ c s, back = c :: s := by
        cases back with
        | nil => cases h
        | cons c s => exact ⟨c, s, rfl⟩
      exact ⟨[], c :: s, if_pos h, List.prefix_rfl⟩
  | cons d front ih =>
      rw [List.cons_append, cutCommentFrom]
      split
      · exact ⟨[], d :: (front ++ back), rfl, List.nil_prefix⟩
      · obtain ⟨code, comment, hcut, hprefix⟩ := ih h
        exact ⟨d :: code, comment, by rw [hcut]; rfl, List.cons_prefix_cons.2 ⟨rfl, hprefix⟩⟩

end

/-- A comment with this token **may start** behind `pos` bytes of a line: the token stands there,
outside braces and outside a list, and its first character is no brace and no bracket. -/
def CommentAt (token line : List Char) (pos : Nat) : Prop :=
  ∃ front back, line = front ++ token ++ back ∧ byteSize front = pos ∧
    braceDepth 0 front = 0 ∧ ¬ ListOpen front ∧
    ∃ c, token.head? = some c ∧ isDelimiter c = false

theorem commentAt_iff {token line : List Char} {pos : Nat} (hne : token ≠ []) :
    CommentAt token line pos ↔ ∃ front back, line = front ++ back ∧ byteSize front = pos ∧
      startsComment token (Nesting.outside.after front) back = true := by
  constructor
  · rintro ⟨front, back, rfl, hpos, hdepth, hlist, hhead⟩
    refine ⟨front, token ++ back, List.append_assoc _ _ _, hpos, (startsComment_iff hne _).2 ?_⟩
    exact ⟨(Nesting.isOutside_after_iff front).2 ⟨hdepth, hlist⟩, List.prefix_append _ _, hhead⟩
  · rintro ⟨front, back, rfl, hpos, hstart⟩
    obtain ⟨houtside, ⟨rest, rfl⟩, hhead⟩ := (startsComment_iff hne _).1 hstart
    obtain ⟨hdepth, hlist⟩ := (Nesting.isOutside_after_iff front).1 houtside
    exact ⟨front, rest, (List.append_assoc _ _ _).symm, hpos, hdepth, hlist, hhead⟩

theorem Text.byteSize_le_of_prefix {s t : List Char} (h : s <+: t) : byteSize s ≤ byteSize t := by
  obtain ⟨u, rfl⟩ := h
  rw [byteSize_append]
  exact Nat.le_add_right _ _

namespace Language

variable {lang : Language} {line : List Char}

/-- The code of a line ends at the first place where a comment may start. -/
theorem isLeast_of_cutComment {code comment : List Char}
    (h : lang.cutComment line = some (code, comment)) :
    IsLeast {pos | CommentAt lang.comment line pos} (byteSize code) := by
  have hne : lang.comment ≠ [] := by
    intro hnil
    simp [cutComment, hnil] at h
  rw [cutComment_of_comment_ne_nil hne] at h
  constructor
  · exact (commentAt_iff hne).2 ⟨code, comment, (eq_of_cutCommentFrom h).1, rfl,
      (eq_of_cutCommentFrom h).2⟩
  · intro pos hpos
    obtain ⟨front, back, rfl, rfl, hstart⟩ := (commentAt_iff hne).1 hpos
    obtain ⟨code', comment', hcut, hprefix⟩ := exists_cutCommentFrom hstart
    obtain ⟨rfl, -⟩ := Prod.ext_iff.1 (Option.some.inj (h.symm.trans hcut))
    exact byteSize_le_of_prefix hprefix

/-- A line without a comment has no place where one may start. -/
theorem not_commentAt_of_cutComment (h : lang.cutComment line = none) (pos : Nat) :
    ¬ CommentAt lang.comment line pos := by
  intro hpos
  have hne : lang.comment ≠ [] := by
    obtain ⟨-, -, -, -, -, -, c, hc, -⟩ := hpos
    exact List.ne_nil_of_mem (List.mem_of_mem_head? hc)
  rw [cutComment_of_comment_ne_nil hne] at h
  obtain ⟨front, back, rfl, -, hstart⟩ := (commentAt_iff hne).1 hpos
  obtain ⟨code, comment, hcut, -⟩ := exists_cutCommentFrom hstart
  rw [h] at hcut
  cases hcut

end Language

namespace ByteLexer

variable {lang : Language} {line : List Char}

/-- The search finds the first place where a comment may start. -/
theorem commentStart?_eq_some_iff (pos : Nat) :
    commentStart? lang line = some (some pos) ↔
      IsLeast {p | CommentAt lang.comment line p} pos := by
  rw [commentStart?_eq, Option.some.injEq]
  cases hcut : lang.cutComment line with
  | none =>
      refine iff_of_false (Option.some_ne_none pos).symm fun hleast => ?_
      exact Language.not_commentAt_of_cutComment hcut pos hleast.1
  | some p =>
      have hleast := Language.isLeast_of_cutComment hcut
      rw [Option.map_some, Option.some.injEq]
      exact ⟨fun hpos => hpos ▸ hleast, hleast.unique⟩

/-- The search finds nothing where no comment may start. -/
theorem commentStart?_eq_none_iff :
    commentStart? lang line = some none ↔ ∀ pos, ¬ CommentAt lang.comment line pos := by
  rw [commentStart?_eq, Option.some.injEq, Option.map_eq_none_iff]
  constructor
  · exact Language.not_commentAt_of_cutComment
  · intro h
    cases hcut : lang.cutComment line with
    | none => rfl
    | some p => exact absurd (Language.isLeast_of_cutComment hcut).1 (h _)

/-- What is promised of the search for the comment of a line. -/
structure LeastStart (lang : Language) (line : List Char) : Prop where
  /-- The search does not fail, and ends where the code of the line does. -/
  start_eq : commentStart? lang line = some ((lang.cutComment line).map fun p => byteSize p.1)
  /-- It finds the first place where a comment may start. -/
  found_iff : ∀ pos, commentStart? lang line = some (some pos) ↔
    IsLeast {p | CommentAt lang.comment line p} pos
  /-- It finds nothing exactly if there is no such place. -/
  absent_iff : commentStart? lang line = some none ↔ ∀ pos, ¬ CommentAt lang.comment line pos
  /-- In front of the comment it finds nothing. -/
  front_absent : ∀ pos, commentStart? lang line = some (some pos) →
    ∃ front, slice? line 0 pos = some front ∧ commentStart? lang front = some none

theorem leastStart (lang : Language) (line : List Char) : LeastStart lang line where
  start_eq := commentStart?_eq lang line
  found_iff := commentStart?_eq_some_iff
  absent_iff := commentStart?_eq_none_iff
  front_absent := by
    intro pos hpos
    rw [commentStart?_eq, Option.some.injEq] at hpos
    obtain ⟨⟨code, comment⟩, hcut, rfl⟩ := Option.map_eq_some_iff.1 hpos
    refine ⟨code, ?_, ?_⟩
    · rw [Language.eq_of_cutComment hcut, slice?_append]
    · rw [commentStart?_eq, Language.cutComment_code hcut]
      rfl

/-- A brace that closes nothing, and hash marks in braces and in a list. -/
example : commentStart? .standard "\x7d点击 [\x7b#a\x7d, #]#b".toList = some (some 17) := by
  decide

/-! ## Calls -/

/-- The tokens of a line, as `lexLine?` finds them, and how often the walk over the line calls
itself. -/
def lexLineCounted? (lang : Language) (line : List Char) (base : Nat) :
    Option (List Token × Nat) :=
  (commentStart? lang line).bind fun start =>
    match start with
    | none => (lexCode? lang line base).map fun tokens => (tokens, 0)
    | some pos =>
      (if 0 < pos then
        (slice? line 0 pos).bind fun code =>
          if _ : code.length < line.length then
            (lexLineCounted? lang code base).map fun p => (p.1, p.2 + 1)
          else none
      else some ([], 0)).bind fun p =>
        (sliceFrom? line pos).map fun comment =>
          (p.1 ++ [⟨⟨.comment, comment⟩, base + pos⟩], p.2)
termination_by line.length

/-- Counting the calls changes nothing else. -/
theorem map_fst_lexLineCounted? (lang : Language) (line : List Char) (base : Nat) :
    (lexLineCounted? lang line base).map Prod.fst = lexLine? lang line base := by
  -- the induction is on the length of the line, since a call is for a part of it
  induction hn : line.length using Nat.strongRecOn generalizing line with
  | _ n ih =>
      rw [lexLineCounted?, lexLine?, Option.map_bind]
      congr 1
      funext start
      cases start with
      | none =>
          rw [Function.comp_apply, Option.map_map]
          exact Option.map_id'
      | some pos =>
          dsimp only [Function.comp_apply]
          by_cases hpos : 0 < pos
          · rw [if_pos hpos, if_pos hpos]
            cases slice? line 0 pos with
            | none => rfl
            | some code =>
                rw [Option.bind_some, Option.bind_some]
                by_cases hshort : code.length < line.length
                · rw [dif_pos hshort, dif_pos hshort, ← ih _ (hn ▸ hshort) code rfl]
                  cases lexLineCounted? lang code base <;> cases sliceFrom? line pos <;> rfl
                · rw [dif_neg hshort, dif_neg hshort]
                  rfl
          · rw [if_neg hpos, if_neg hpos]
            cases sliceFrom? line pos <;> rfl

section

variable {base calls : Nat} {tokens : List Token}

/-- A line without a comment needs no call. -/
theorem calls_eq_zero (h : commentStart? lang line = some none)
    (hrun : lexLineCounted? lang line base = some (tokens, calls)) : calls = 0 := by
  rw [lexLineCounted?, h] at hrun
  obtain ⟨_, -, heq⟩ := Option.map_eq_some_iff.1 hrun
  exact (Prod.ext_iff.1 heq).2.symm

/-- A line with a comment needs one call, unless the comment is the whole line. -/
theorem calls_eq {pos : Nat} (h : commentStart? lang line = some (some pos))
    (hrun : lexLineCounted? lang line base = some (tokens, calls)) :
    calls = if 0 < pos then 1 else 0 := by
  rw [lexLineCounted?, h, Option.bind_some] at hrun
  obtain ⟨⟨before, calls'⟩, hbefore, hrun⟩ := Option.bind_eq_some_iff.1 hrun
  obtain ⟨comment, -, heq⟩ := Option.map_eq_some_iff.1 hrun
  obtain rfl : calls' = calls := (Prod.ext_iff.1 heq).2
  split at hbefore
  · next hpos =>
    obtain ⟨code, hcode, hbefore⟩ := Option.bind_eq_some_iff.1 hbefore
    split at hbefore
    · obtain ⟨⟨before', inner⟩, hinner, heq⟩ := Option.map_eq_some_iff.1 hbefore
      -- the call is for the text in front of the comment, in which there is no comment
      obtain ⟨front, hfront, hnone⟩ := (leastStart lang line).front_absent pos h
      obtain rfl : code = front := Option.some.inj (hcode.symm.trans hfront)
      obtain rfl := calls_eq_zero hnone hinner
      rw [if_pos hpos]
      exact (Prod.ext_iff.1 heq).2.symm
    · cases hbefore
  · next hpos =>
    rw [if_neg hpos]
    exact (Prod.ext_iff.1 (Option.some.inj hbefore)).2.symm

/-- The walk over a line calls itself at most once, for what stands in front of a comment. -/
theorem calls_le_and_eq_one_iff (hrun : lexLineCounted? lang line base = some (tokens, calls)) :
    calls ≤ 1 ∧
      (calls = 1 ↔ ∃ pos, 0 < pos ∧ commentStart? lang line = some (some pos)) := by
  obtain ⟨start, hstart⟩ : ∃ start, commentStart? lang line = some start :=
    ⟨_, commentStart?_eq lang line⟩
  cases start with
  | none =>
      rw [calls_eq_zero hstart hrun, hstart]
      simp
  | some pos =>
      rw [calls_eq hstart hrun, hstart]
      by_cases hpos : 0 < pos <;> simp [hpos]

end

end ByteLexer

/-! ## Comments among the tokens -/

namespace Lexer

theorem kind_ne_comment_of_mem_lexCode {lang : Language} {line : List Char} {l : Lexeme}
    (h : l ∈ lexCode lang line) : l.kind ≠ .comment := by
  intro hkind
  have hof := kind_of_mem_lexCode h
  rw [hkind] at hof
  rcases hof with hof | hof <;> cases hof

/-- The lexemes of a line are those of its code, and its comment behind them. -/
theorem lexLine_eq (lang : Language) (line : List Char) :
    lexLine lang line = lexCode lang (lang.code line) ++
      ((lang.cutComment line).map fun p => ⟨.comment, p.2⟩).toList := by
  unfold lexLine Language.code
  cases lang.cutComment line with
  | none => simp
  | some p => rfl

/-- Nothing but the end of a line may follow a comment. -/
def ClosesLine (a b : Lexeme) : Prop :=
  a.kind = .comment → b.kind = .newline

theorem isChain_lexLine (lang : Language) (line : List Char) :
    (lexLine lang line).IsChain ClosesLine := by
  have hcode : ∀ l ∈ lexCode lang (lang.code line), l.kind ≠ .comment := fun l hl =>
    kind_ne_comment_of_mem_lexCode hl
  rw [lexLine_eq, List.isChain_append]
  refine ⟨?_, ?_, fun l hl _ _ hkind => absurd hkind (hcode l (List.mem_of_getLast? hl))⟩
  · exact (List.pairwise_of_forall_mem_list fun l hl _ _ hkind =>
      absurd hkind (hcode l hl)).isChain
  · cases lang.cutComment line with
    | none => exact .nil
    | some p => exact .singleton _

theorem kind_of_mem_head?_laterLexemes {lang : Language} {lines : List (List Char)} {l : Lexeme}
    (h : l ∈ (ByteLexer.laterLexemes lang lines).head?) : l.kind = .newline := by
  cases lines with
  | nil => cases h
  | cons line rest =>
      obtain rfl := Option.some.inj h
      rfl

theorem isChain_laterLexemes (lang : Language) (lines : List (List Char)) :
    (ByteLexer.laterLexemes lang lines).IsChain ClosesLine := by
  induction lines with
  | nil => exact .nil
  | cons line rest ih =>
      rw [ByteLexer.laterLexemes, List.flatMap_cons, List.cons_append]
      refine List.isChain_cons.2 ⟨?_, List.isChain_append.2 ?_⟩
      · intro l _ hkind
        cases hkind
      · exact ⟨isChain_lexLine lang line, ih, fun _ _ _ hl _ => kind_of_mem_head?_laterLexemes hl⟩

theorem isChain_lexText (lang : Language) (s : List Char) :
    (lexText lang s).IsChain ClosesLine := by
  rw [lexText]
  cases hlines : splitLines s with
  | nil => exact absurd hlines (splitLines_ne_nil s)
  | cons line rest =>
      rw [ByteLexer.lexLines_cons, List.isChain_append]
      exact ⟨isChain_lexLine lang line, isChain_laterLexemes lang rest,
        fun _ _ _ hl _ => kind_of_mem_head?_laterLexemes hl⟩

end Lexer

namespace Token

variable {lang : Language} {line : List Char} {base : Nat}

/-- The tokens of a line are those of its code, and its comment behind them. -/
theorem place_lexLine (lang : Language) (line : List Char) (base : Nat) :
    place base (Lexer.lexLine lang line) = place base (Lexer.lexCode lang (lang.code line)) ++
      ((lang.cutComment line).map fun p =>
        (⟨⟨.comment, p.2⟩, base + byteSize p.1⟩ : Token)).toList := by
  rw [Lexer.lexLine_eq, place_append, Lexer.flatten_lexCode, Language.code]
  cases lang.cutComment line <;> rfl

theorem kind_ne_comment_of_mem_place {t : Token}
    (h : t ∈ place base (Lexer.lexCode lang line)) : t.kind ≠ .comment :=
  Lexer.kind_ne_comment_of_mem_lexCode (toLexeme_mem h)

/-- The comment among the tokens of a line is the one that is cut off. -/
theorem comment_mem_iff {t : Token} :
    t ∈ place base (Lexer.lexLine lang line) ∧ t.kind = .comment ↔
      ∃ code comment, lang.cutComment line = some (code, comment) ∧
        t = ⟨⟨.comment, comment⟩, base + byteSize code⟩ := by
  rw [place_lexLine, List.mem_append]
  constructor
  · rintro ⟨ht | ht, hkind⟩
    · exact absurd hkind (kind_ne_comment_of_mem_place ht)
    · obtain ⟨⟨code, comment⟩, hcut, rfl⟩ := Option.map_eq_some_iff.1 (Option.mem_toList.1 ht)
      exact ⟨code, comment, hcut, rfl⟩
  · rintro ⟨code, comment, hcut, rfl⟩
    exact ⟨Or.inr (Option.mem_toList.2 (Option.map_eq_some_iff.2 ⟨_, hcut, rfl⟩)), rfl⟩

/-- No token of a line but the last one is a comment. -/
theorem kind_ne_comment_of_mem_dropLast {t : Token}
    (h : t ∈ (place base (Lexer.lexLine lang line)).dropLast) : t.kind ≠ .comment := by
  rw [place_lexLine] at h
  cases hcut : lang.cutComment line with
  | none =>
      rw [hcut, Option.map_none, Option.toList_none, List.append_nil] at h
      exact kind_ne_comment_of_mem_place (List.dropLast_subset _ h)
  | some p =>
      rw [hcut, Option.map_some, Option.toList_some, List.dropLast_concat] at h
      exact kind_ne_comment_of_mem_place h

theorem countP_comment_le (lang : Language) (line : List Char) (base : Nat) :
    (place base (Lexer.lexLine lang line)).countP (fun t => t.kind == .comment) ≤ 1 := by
  have hcode : (place base (Lexer.lexCode lang (lang.code line))).countP
      (fun t => t.kind == .comment) = 0 :=
    List.countP_eq_zero.2 fun t ht => by simpa using kind_ne_comment_of_mem_place ht
  rw [place_lexLine, List.countP_append, hcode, Nat.zero_add]
  refine List.countP_le_length.trans ?_
  cases lang.cutComment line <;> simp

end Token

namespace ByteLexer

/-- What is promised of the tokens of a line that stands behind `base` bytes, and of the calls that
the walk over the line makes of itself. -/
structure ShallowLine (lang : Language) (line : List Char) (base : Nat) (tokens : List Token)
    (calls : Nat) : Prop where
  /-- The walk finds the tokens with these calls. -/
  counted : lexLineCounted? lang line base = some (tokens, calls)
  /-- It finds the same tokens without counting. -/
  uncounted : lexLine? lang line base = some tokens
  calls_le : calls ≤ 1
  /-- There is a call exactly if something stands in front of a comment. -/
  calls_eq_one_iff : calls = 1 ↔ ∃ pos, 0 < pos ∧ commentStart? lang line = some (some pos)
  /-- There is a comment among the tokens exactly where the search finds one. -/
  comment_iff : ∀ pos, (∃ t ∈ tokens, t.kind = .comment ∧ t.start = base + pos) ↔
    commentStart? lang line = some (some pos)
  /-- There is at most one comment among them. -/
  countP_comment_le : tokens.countP (fun t => t.kind == .comment) ≤ 1
  /-- No token but the last one is a comment. -/
  comment_last : ∀ t ∈ tokens.dropLast, t.kind ≠ .comment

theorem exists_comment_iff (lang : Language) (line : List Char) (base pos : Nat) :
    (∃ t ∈ Token.place base (Lexer.lexLine lang line), t.kind = .comment ∧ t.start = base + pos) ↔
      commentStart? lang line = some (some pos) := by
  rw [commentStart?_eq, Option.some.injEq, Option.map_eq_some_iff]
  constructor
  · rintro ⟨t, ht, hkind, hstart⟩
    obtain ⟨code, comment, hcut, rfl⟩ := Token.comment_mem_iff.1 ⟨ht, hkind⟩
    exact ⟨(code, comment), hcut, Nat.add_left_cancel hstart⟩
  · rintro ⟨⟨code, comment⟩, hcut, rfl⟩
    exact ⟨_, (Token.comment_mem_iff.2 ⟨code, comment, hcut, rfl⟩).1, rfl, rfl⟩

theorem exists_shallowLine (lang : Language) (line : List Char) (base : Nat) :
    ∃ calls, ShallowLine lang line base (Token.place base (Lexer.lexLine lang line)) calls := by
  have hrun := map_fst_lexLineCounted? lang line base
  rw [lexLine?_eq] at hrun
  obtain ⟨⟨tokens, calls⟩, hcounted, heq⟩ := Option.map_eq_some_iff.1 hrun
  obtain rfl : tokens = Token.place base (Lexer.lexLine lang line) := heq
  obtain ⟨hle, hone⟩ := calls_le_and_eq_one_iff hcounted
  exact ⟨calls, hcounted, lexLine?_eq lang line base, hle, hone,
    exists_comment_iff lang line base, Token.countP_comment_le lang line base,
    fun _ => Token.kind_ne_comment_of_mem_dropLast⟩

/-- **The search for a comment is minimal, and the recursion on it is shallow.** In every language,
the search of a line finds the first place where a comment may start, and nothing in front of it;
the walk over the line calls itself at most once, and a comment among its tokens is the last one. In
a whole text, nothing but the end of its line follows a comment. -/
theorem shallowSearch (lang : Language) (s : List Char) (base : Nat) :
    LeastStart lang s ∧
    (∃ calls, ShallowLine lang s base (Token.place base (Lexer.lexLine lang s)) calls) ∧
    (Token.ofText lang s).IsChain fun a b => a.kind = .comment → b.kind = .newline := by
  refine ⟨leastStart lang s, exists_shallowLine lang s base, ?_⟩
  have hchain := Lexer.isChain_lexText lang s
  rw [← Token.texts_place 0 (Lexer.lexText lang s), List.isChain_map] at hchain
  exact hchain

end ByteLexer

end StepScript
