import StepScript.Proofs.ByteLexer

/-!
# Tokens cover a text

The tokens of a text follow one another from its first byte to its last one, and each is a slice of
the text. The ends of lines are tokens of their own, and are in no other token.

Main statements:

* `Token.isChain_place`, `Token.slice?_of_mem_place`, `Token.exists_of_mem_flatten` — how placed
  lexemes cover what they make up;
* `Lexer.forall_mem_lexText` — what is known of every lexeme of a text;
* `Token.exactCover` — what is promised of the tokens of a text, and of a line.
-/

set_option autoImplicit false

namespace StepScript

open Text

/-! ## Placed lexemes -/

namespace Token

theorem start_of_mem_head? {start : Nat} {ls : List Lexeme} {t : Token}
    (h : t ∈ (place start ls).head?) : t.start = start := by
  cases ls with
  | nil => cases h
  | cons l ls =>
      obtain rfl := Option.some.inj h
      rfl

/-- Placed lexemes follow one another. -/
theorem isChain_place (start : Nat) (ls : List Lexeme) :
    (place start ls).IsChain fun a b => b.start = a.stop := by
  induction ls generalizing start with
  | nil => exact .nil
  | cons l ls ih =>
      cases ls with
      | nil => exact .singleton _
      | cons next ls => exact List.isChain_cons_cons.2 ⟨rfl, ih _⟩

theorem toLexeme_mem {start : Nat} {ls : List Lexeme} {t : Token} (h : t ∈ place start ls) :
    t.toLexeme ∈ ls := by
  have hmem := List.mem_map_of_mem (f := fun t : Token => t.toLexeme) h
  rwa [texts_place] at hmem

theorem flatMap_text_place (start : Nat) (ls : List Lexeme) :
    (place start ls).flatMap (·.text) = Lexer.flatten ls := by
  conv => rhs; rw [← texts_place start ls, Lexer.flatten, List.flatMap_map]

/-- A placed lexeme is a slice of the text, where the lexemes make up what stands at their start. -/
theorem slice?_of_mem_place {s : List Char} {start : Nat} {ls : List Lexeme}
    (h : sliceFrom? s start = some (Lexer.flatten ls)) {t : Token} (ht : t ∈ place start ls) :
    slice? s t.start t.stop = some t.text := by
  induction ls generalizing start with
  | nil => cases ht
  | cons l ls ih =>
      rw [Lexer.flatten_cons] at h
      rcases List.mem_cons.1 ht with rfl | ht
      · exact slice?_of_sliceFrom? h
      · exact ih (sliceFrom?_add h) ht

/-- Every character of a text is in one of its tokens. -/
theorem exists_of_flatten_eq (start : Nat) {ls : List Lexeme} {front back : List Char} {c : Char}
    (h : Lexer.flatten ls = front ++ c :: back) :
    ∃ t ∈ place start ls, ∃ before after, t.text = before ++ c :: after ∧
      t.start + byteSize before = start + byteSize front := by
  induction ls generalizing start front with
  | nil => simp at h
  | cons l ls ih =>
      rw [Lexer.flatten_cons] at h
      -- the character is in the first lexeme, or the text in front of it holds all of that lexeme
      rcases List.append_eq_append_iff.1 h with ⟨front', rfl, hls⟩ | ⟨tail, hl, htail⟩
      · obtain ⟨t, ht, before, after, htext, hstart⟩ := ih (start + byteSize l.text) hls
        refine ⟨t, List.mem_cons_of_mem _ ht, before, after, htext, ?_⟩
        rw [hstart, byteSize_append, Nat.add_assoc]
      · cases tail with
        | nil =>
            rw [List.append_nil] at hl
            have hls : Lexer.flatten ls = [] ++ c :: back := htail.symm
            obtain ⟨t, ht, before, after, htext, hstart⟩ := ih (start + byteSize l.text) hls
            refine ⟨t, List.mem_cons_of_mem _ ht, before, after, htext, ?_⟩
            rw [hstart, byteSize_nil, Nat.add_zero, hl]
        | cons d tail =>
            obtain ⟨rfl, -⟩ := List.cons.inj htail
            exact ⟨⟨l, start⟩, List.mem_cons_self, front, tail, hl, rfl⟩

end Token

/-! ## Lexemes of a text -/

namespace Lexer

variable {lang : Language}

theorem text_ne_nil_of_mem_freeText {s : List Char} {l : Lexeme} (h : l ∈ freeText s) :
    l.text ≠ [] := by
  unfold freeText at h
  split at h
  · cases h
  · next hs =>
    rw [List.mem_singleton.1 h]
    simpa using hs

theorem text_ne_nil_of_mem_lexFrom {suffix : Bool} {s : List Char} {l : Lexeme}
    (h : l ∈ lexFrom suffix s) : l.text ≠ [] := by
  fun_induction lexFrom suffix s with
  | case1 => cases h
  | case2 suffix c s n hn ih =>
      rcases List.mem_cons.1 h with rfl | h
      · exact List.cons_ne_nil _ _
      · exact ih h
  | case3 suffix c s hn kind n hs ih =>
      rcases List.mem_cons.1 h with rfl | h
      · exact List.cons_ne_nil _ _
      · exact ih h

/-- No lexeme of a line is empty, unless the steps keyword is. -/
theorem text_ne_nil_of_mem_lexLine (hsteps : lang.stepsKeyword ≠ []) {line : List Char} {l : Lexeme}
    (h : l ∈ lexLine lang line) : l.text ≠ [] := by
  have hcode : ∀ code, l ∈ lexCode lang code → l.text ≠ [] := by
    intro code hl
    unfold lexCode at hl
    cases hm : lexMarker? lang code with
    | none =>
        rw [hm] at hl
        exact text_ne_nil_of_mem_lexFrom hl
    | some ls =>
        rw [hm] at hl
        obtain ⟨rest, tail, -, -, rfl⟩ := exists_of_lexMarker? hm
        simp only [Option.getD_some, List.mem_append, List.mem_cons] at hl
        rcases hl with (hl | rfl | hl) | rfl | hl
        · exact text_ne_nil_of_mem_freeText hl
        · exact hsteps
        · exact text_ne_nil_of_mem_freeText hl
        · exact List.cons_ne_nil _ _
        · exact text_ne_nil_of_mem_freeText hl
  unfold lexLine at h
  split at h
  · next hcut =>
    rcases List.mem_append.1 h with h | h
    · exact hcode _ h
    · rw [List.mem_singleton.1 h]
      exact ByteLexer.comment_ne_nil hcut
  · exact hcode _ h

/-- No lexeme of a line holds a character that the line does not hold. -/
theorem not_mem_text_of_mem_lexLine {line : List Char} {l : Lexeme} (h : l ∈ lexLine lang line)
    {c : Char} (hc : c ∉ line) : c ∉ l.text := by
  intro hmem
  refine hc ?_
  rw [← flatten_lexLine lang line]
  exact List.mem_flatMap.2 ⟨l, h, hmem⟩

/-- The lexemes of a text are the ends of its lines, and the lexemes of its lines. -/
theorem forall_mem_lexText {p : Lexeme → Prop} (s : List Char) (hnewline : p ⟨.newline, ['\n']⟩)
    (hline : ∀ line ∈ splitLines s, ∀ l ∈ lexLine lang line, p l) : ∀ l ∈ lexText lang s, p l := by
  rw [lexText]
  cases hlines : splitLines s with
  | nil => exact absurd hlines (splitLines_ne_nil s)
  | cons line rest =>
      rw [hlines, List.forall_mem_cons] at hline
      rw [ByteLexer.lexLines_cons, List.forall_mem_append, ByteLexer.laterLexemes]
      refine ⟨hline.1, fun l hl => ?_⟩
      obtain ⟨line', hline', hl⟩ := List.mem_flatMap.1 hl
      rcases List.mem_cons.1 hl with rfl | hl
      · exact hnewline
      · exact hline.2 line' hline' l hl

end Lexer

/-! ## Exact covers -/

/-- What is promised of the tokens that cover a text. -/
structure ExactCover (lang : Language) (s : List Char) (tokens : List Token) : Prop where
  /-- The first token starts where the text starts. -/
  first_start : ∀ t ∈ tokens.head?, t.start = 0
  /-- Every other token starts where the one before ends. -/
  next_start : tokens.IsChain fun a b => b.start = a.stop
  /-- Every token is a slice of the text, which neither starts nor ends within a character. -/
  sliced : ∀ t ∈ tokens, slice? s t.start t.stop = some t.text
  /-- The tokens make up the text. -/
  texts_eq : tokens.flatMap (·.text) = s
  /-- No token is empty, unless the steps keyword is. -/
  nonempty : lang.stepsKeyword ≠ [] → ∀ t ∈ tokens, t.text ≠ []

/-- What is promised of the ends of lines among the tokens of a text. -/
structure MarksLineFeeds (s : List Char) (tokens : List Token) : Prop where
  /-- The token of the end of a line is one line feed. -/
  text_eq : ∀ t ∈ tokens, t.kind = .newline → t.text = ['\n']
  /-- No other token holds a line feed. -/
  kind_eq : ∀ t ∈ tokens, '\n' ∈ t.text → t.kind = .newline
  /-- Such tokens are where the text has a line feed. -/
  start_iff : ∀ pos, (∃ t ∈ tokens, t.kind = .newline ∧ t.start = pos) ↔
    slice? s pos (pos + 1) = some ['\n']

namespace Token

variable {lang : Language} {s : List Char} {ls : List Lexeme}

theorem exactCover_place (hls : Lexer.flatten ls = s)
    (hne : lang.stepsKeyword ≠ [] → ∀ l ∈ ls, l.text ≠ []) : ExactCover lang s (place 0 ls) where
  first_start := fun _ => start_of_mem_head?
  next_start := isChain_place 0 ls
  sliced := fun _ => slice?_of_mem_place (by rw [sliceFrom?_zero, hls])
  texts_eq := (flatMap_text_place 0 ls).trans hls
  nonempty := fun hsteps _ ht => hne hsteps _ (toLexeme_mem ht)

theorem marksLineFeeds_place (hls : Lexer.flatten ls = s)
    (htext : ∀ l ∈ ls, l.kind = .newline → l.text = ['\n'])
    (hkind : ∀ l ∈ ls, '\n' ∈ l.text → l.kind = .newline) : MarksLineFeeds s (place 0 ls) where
  text_eq := fun _ ht => htext _ (toLexeme_mem ht)
  kind_eq := fun _ ht => hkind _ (toLexeme_mem ht)
  start_iff := by
    intro pos
    constructor
    · rintro ⟨t, ht, hnewline, rfl⟩
      have hslice := slice?_of_mem_place (s := s) (by rw [sliceFrom?_zero, hls]) ht
      rw [stop, htext _ (toLexeme_mem ht) hnewline] at hslice
      exact hslice
    · intro h
      obtain ⟨back, hback, -⟩ := slice?_eq_some.1 h
      obtain ⟨front, hs, rfl⟩ := sliceFrom?_eq_some.1 hback
      obtain ⟨t, ht, before, after, hbefore, hstart⟩ :=
        exists_of_flatten_eq 0 (hls.trans hs)
      have hnewline : t.kind = .newline := by
        refine hkind _ (toLexeme_mem ht) ?_
        rw [hbefore]
        simp
      -- the token is the line feed and nothing else, so that it starts there
      have hone : before = [] := by
        have heq := htext _ (toLexeme_mem ht) hnewline
        rw [hbefore] at heq
        have hlength := congrArg List.length heq
        rw [List.length_append, List.length_cons, List.length_singleton] at hlength
        exact List.length_eq_zero_iff.1 (by omega)
      refine ⟨t, ht, hnewline, ?_⟩
      rw [hone] at hstart
      simpa using hstart

/-- **Exact covers.** In every language, the lexer that walks over a text by byte offsets does not
fail; the tokens that it finds cover the text exactly, and mark its line feeds. The tokens of a single
line cover the line exactly, whatever it holds. -/
theorem exactCover (lang : Language) (s : List Char) :
    (ByteLexer.tokenize? lang s = some (ofText lang s) ∧ ExactCover lang s (ofText lang s) ∧
      MarksLineFeeds s (ofText lang s)) ∧
    ByteLexer.tokenizeLine? lang s = some (ofLine lang s) ∧ ExactCover lang s (ofLine lang s) := by
  have hnotnewline : ∀ line ∈ splitLines s, ∀ l ∈ Lexer.lexLine lang line,
      l.kind ≠ .newline ∧ '\n' ∉ l.text := fun line hline l hl =>
    ⟨Lexer.kind_ne_newline_of_mem_lexLine hl,
      Lexer.not_mem_text_of_mem_lexLine hl (not_mem_of_mem_splitLines hline)⟩
  refine ⟨⟨ByteLexer.tokenize?_eq lang s, ?_, ?_⟩, ByteLexer.tokenizeLine?_eq lang s, ?_⟩
  · refine exactCover_place (Lexer.flatten_lexText lang s) fun hsteps => ?_
    exact Lexer.forall_mem_lexText s (List.cons_ne_nil _ _) fun line _ l hl =>
      Lexer.text_ne_nil_of_mem_lexLine hsteps hl
  · refine marksLineFeeds_place (Lexer.flatten_lexText lang s) ?_ ?_
    · exact Lexer.forall_mem_lexText s (fun _ => rfl) fun line hline l hl hkind =>
        absurd hkind (hnotnewline line hline l hl).1
    · exact Lexer.forall_mem_lexText s (fun _ => rfl) fun line hline l hl hmem =>
        absurd hmem (hnotnewline line hline l hl).2
  · exact exactCover_place (Lexer.flatten_lexLine lang s) fun hsteps l hl =>
      Lexer.text_ne_nil_of_mem_lexLine hsteps hl

/-- With an empty steps keyword, a colon at the start of a line has an empty token in front of it. -/
example : (ofLine ⟨[], [], [], [], []⟩ ": a".toList).map (·.text) =
    [[], ":".toList, " a".toList] := by
  decide

end Token

end StepScript
