import StepScript.Shell.Lexer

/-!
# Quoted texts that are read again

The shell shows variables, aliases and actions in a form that it can read back: `quoted` puts a text
in quotes. Any text can be quoted, its own quotes and line ends included. What is read back is a word
that means the text and nothing else, and that is neither a keyword nor an alias.

A word is read character by character, and a character outside of quotes is read together with the
line ends that a backslash takes away behind it. `readRest` is the loop over a word with the next
character still to come, so that every part of a word is a step from one such loop to another one.

Main statements:

* `readAs_quoted` — a quoted text is used up as a part of a word;
* `token_quoted` — a quoted text is a token of its own.
-/

set_option autoImplicit false

namespace StepScript.Shell

/-! ## Words that mean a text -/

/-- A piece with which nothing is done but to take its character, if it has one. -/
inductive Piece.Literal : Piece → Prop
  | quote : Literal .quote
  | plain (c : Char) : Literal (.plain c)
  | char {c : Char} (h : Parse.isGuarded c = false) : Literal (.char c)

/-- A word of such pieces alone, which **means** the text of their characters. -/
structure Word.Means (w : Word) (s : Bytes) : Prop where
  text_eq : w.text = s
  literal : ∀ p ∈ w, p.Literal

namespace Word

theorem text_append (v w : Word) : text (v ++ w) = text v ++ text w :=
  List.filterMap_append

theorem Means.append {v w : Word} {s t : Bytes} (hv : v.Means s) (hw : w.Means t) :
    Means (v ++ w) (s ++ t) where
  text_eq := by rw [text_append, hv.text_eq, hw.text_eq]
  literal p hp := (List.mem_append.1 hp).elim (hv.literal p) (hw.literal p)

theorem means_nil : Means [] [] where
  text_eq := rfl
  literal _ hp := by cases hp

theorem means_quote : Means [.quote] [] where
  text_eq := rfl
  literal _ hp := List.mem_singleton.1 hp ▸ .quote

def inQuotes (w : Word) : Word :=
  .quote :: w ++ [.quote]

theorem Means.inQuotes {w : Word} {s : Bytes} (h : w.Means s) : w.inQuotes.Means s := by
  have hboth := (means_quote.append h).append means_quote
  rwa [List.nil_append, List.append_nil] at hboth

/-- A text as the word that it is read as in quotes. -/
def guarded (s : Bytes) : Word :=
  s.map fun c => if Parse.isGuarded c then .plain c else .char c

theorem means_guarded (s : Bytes) : (guarded s).Means s where
  text_eq := by
    induction s with
    | nil => rfl
    | cons c s ih =>
      rw [guarded, List.map_cons, ← guarded]
      cases Parse.isGuarded c <;> exact congrArg (c :: ·) ih
  literal p hp := by
    obtain ⟨c, -, rfl⟩ := List.mem_map.1 hp
    cases h : Parse.isGuarded c with
    | true => exact .plain c
    | false => exact .char h

theorem length_inQuotes_guarded (s : Bytes) : (guarded s).inQuotes.length = s.length + 2 := by
  simp [inQuotes, guarded]

end Word

/-! ## Quoted texts -/

theorem drop_length_takeWhile (p : Char → Bool) (s : Bytes) :
    s.drop (s.takeWhile p).length = s.dropWhile p := by
  have hdrop := @List.drop_left _ (s.takeWhile p) (s.dropWhile p)
  rwa [List.takeWhile_append_dropWhile] at hdrop

/-- A quoted text starts with what stands in front of its first single quotes, and those. -/
theorem quoted_go_succ (n : Nat) (s : Bytes) :
    ∃ plain marks rest : Bytes, s = plain ++ (marks ++ rest) ∧ '\'' ∉ plain ∧
      (∀ c ∈ marks, c = '\'') ∧ (marks = [] → rest = []) ∧
      quoted.go (n + 1) s = ('\'' :: plain ++ ['\'']) ++
        ((if marks.isEmpty then [] else '"' :: marks ++ ['"']) ++
          if rest.isEmpty then [] else quoted.go n rest) := by
  let behind := s.dropWhile (· != '\'')
  refine ⟨s.takeWhile (· != '\''), behind.takeWhile (· == '\''), behind.dropWhile (· == '\''),
    ?_, ?_, ?_, ?_, ?_⟩
  · rw [List.takeWhile_append_dropWhile, List.takeWhile_append_dropWhile]
  · intro h
    simpa using List.all_eq_true.1 List.all_takeWhile _ h
  · intro c h
    simpa using List.all_eq_true.1 List.all_takeWhile _ h
  · intro h
    cases hbehind : behind with
    | nil => rfl
    | cons c t =>
      have hne : behind ≠ [] := by simp [hbehind]
      have hhead : (behind.head hne != '\'') = false := List.head_dropWhile_not _ hne
      obtain rfl : c = '\'' := by simpa [hbehind] using hhead
      rw [hbehind] at h
      cases h
  · rw [quoted.go, drop_length_takeWhile, ← List.drop_drop, drop_length_takeWhile,
      drop_length_takeWhile]
    simp [behind]

/-! ## Characters -/

/-- A reading further down in its text, behind some line ends. -/
def Reading.skipTo (r : Reading) (rest : List Char) (lines : Nat) : Reading :=
  { r with passed := [], rest, line := r.line + lines }

namespace Parse

/-- A text that starts with a character of the script that is no backslash, if it is not empty. -/
def StartsPlain (t : List Char) : Prop :=
  ∀ c, t.head? = some c → isMark c = false ∧ c ≠ '\\'

theorem startsPlain_cons {c : Char} (hmark : isMark c = false) (hback : c ≠ '\\') (t : List Char) :
    StartsPlain (c :: t) := by
  intro d hd
  cases hd
  exact ⟨hmark, hback⟩

theorem bind_of_ok {α β : Type} {x : Parse α} {f : α → Parse β} {r r' : Reading} {a : α}
    (h : x r = .ok a r') : (x >>= f) r = f a r' := by
  change EStateM.bind x f r = _
  unfold EStateM.bind
  rw [h]

theorem next_apply (r : Reading) :
    next r = .ok (next.go { r with passed := [] } r.rest).1
      (next.go { r with passed := [] } r.rest).2 :=
  rfl

theorem next_of_rest {r : Reading} {c : Char} {t : List Char} (hr : r.rest = c :: t)
    (hc : isMark c = false) : next r = .ok (some c) (r.skipTo t 0) := by
  rw [next_apply, hr, next.go, hc]
  rfl

theorem nextJoined_of_next {r r' : Reading} {c : Option Char} (h : next r = .ok c r')
    (hc : c ≠ some '\\') : nextJoined r = .ok c r' := by
  have hlimit : limit = limit - 1 + 1 := rfl
  rw [nextJoined, hlimit, nextJoined.go, bind_of_ok h]
  split
  · exact absurd rfl hc
  · rfl

/-- Nothing is joined to a character that is no backslash. -/
theorem nextJoined_eq_next {r : Reading} (h : StartsPlain r.rest) : nextJoined r = next r := by
  cases hr : r.rest with
  | nil =>
    have hnext : next r = .ok none (r.skipTo [] 0) := by
      rw [next_apply, hr]
      rfl
    rw [hnext, nextJoined_of_next hnext (by simp)]
  | cons c t =>
    obtain ⟨hmark, hback⟩ := h c (by rw [hr]; rfl)
    have hnext := next_of_rest hr hmark
    rw [hnext, nextJoined_of_next hnext (by simpa using hback)]

/-! ## Parts of a word -/

/-- What is read of a word whose next character is still to come. -/
def readRest (commands : CommandReader) (fuel : Nat) (w : WordReading) :
    Parse (WordReading × Option Char) := do
  wordLoop commands none fuel w (← next)

section

variable (commands : CommandReader) (fuel : Nat) (r : Reading) (lines : Nat)

theorem readRest_cons (w : WordReading) {c : Char} (hc : isMark c = false) (t : List Char) :
    readRest commands fuel w (r.skipTo (c :: t) lines) =
      wordLoop commands none fuel w (some c) (r.skipTo t lines) :=
  bind_of_ok (next_of_rest rfl hc)

theorem nextJoined_bind_wordLoop (w : WordReading) {t : List Char} (ht : StartsPlain t) :
    (nextJoined >>= fun d => wordLoop commands none fuel w d) (r.skipTo t lines) =
      readRest commands fuel w (r.skipTo t lines) := by
  have hnext : nextJoined (r.skipTo t lines) = next (r.skipTo t lines) := nextJoined_eq_next ht
  unfold readRest
  change EStateM.bind _ _ _ = EStateM.bind _ _ _
  unfold EStateM.bind
  rw [hnext]

/-- A word outside of quotes. -/
def outside (pieces : Word) (isQuoted : Bool) : WordReading :=
  ⟨.start .none false, [], pieces, [], isQuoted⟩

def inSingle (pieces : Word) (isQuoted : Bool) : WordReading :=
  ⟨.start .single false, [], pieces, [], isQuoted⟩

def inDouble (pieces : Word) (isQuoted : Bool) : WordReading :=
  ⟨.start .double true, [], pieces, [], isQuoted⟩

variable (pieces : Word) (isQuoted : Bool)

/-! ### Single quotes -/

theorem readRest_openSingle (t : List Char) :
    readRest commands (fuel + 1) (outside pieces isQuoted) (r.skipTo ('\'' :: t) lines) =
      readRest commands fuel (inSingle (.quote :: pieces) isQuoted) (r.skipTo t lines) := by
  rw [readRest_cons _ _ _ _ _ (by decide)]
  rfl

theorem readRest_closeSingle {t : List Char} (ht : StartsPlain t) :
    readRest commands (fuel + 1) (inSingle pieces isQuoted) (r.skipTo ('\'' :: t) lines) =
      readRest commands fuel (outside (.quote :: pieces) true) (r.skipTo t lines) := by
  rw [readRest_cons _ _ _ _ _ (by decide), ← nextJoined_bind_wordLoop _ _ _ _ _ ht]
  rfl

theorem readRest_single {w : WordReading} (hw : w.frame.quoting = .single) {c : Char}
    (hmark : isMark c = false) (hc : c ≠ '\'') (t : List Char) :
    readRest commands (fuel + 1) w (r.skipTo (c :: t) lines) =
      readRest commands fuel (w.add (if isGuarded c then .plain c else .char c))
        (r.skipTo t (lines + [c].count '\n')) := by
  rw [readRest_cons _ _ _ _ _ hmark]
  by_cases hline : c = '\n'
  · subst hline
    simp only [wordLoop, hw]
    rfl
  · have hcount : [c].count '\n' = 0 := List.count_eq_zero.2 (by simpa using Ne.symm hline)
    rw [hcount]
    simp only [wordLoop, hw, hline, hc, if_false, if_true, Option.isSome_none, Bool.not_false,
      Bool.and_true]
    exact congrFun (if_pos hw) _

/-- A text in single quotes is read up to its end. -/
theorem readRest_inSingle {s : Bytes} (hmarks : ∀ c ∈ s, isMark c = false) (hquote : '\'' ∉ s)
    (t : List Char) :
    readRest commands (fuel + s.length) (inSingle pieces isQuoted) (r.skipTo (s ++ t) lines) =
      readRest commands fuel (inSingle ((Word.guarded s).reverse ++ pieces) isQuoted)
        (r.skipTo t (lines + s.count '\n')) := by
  induction s generalizing pieces lines with
  | nil => rfl
  | cons c s ih =>
    have hc : c ≠ '\'' := fun h => hquote (h ▸ List.mem_cons_self)
    rw [List.length_cons, ← Nat.add_assoc, List.cons_append,
      readRest_single _ _ _ _ rfl (hmarks c List.mem_cons_self) hc]
    have hs := ih (lines + [c].count '\n') ((if isGuarded c then .plain c else .char c) :: pieces)
      (fun d hd => hmarks d (List.mem_cons_of_mem _ hd)) (hquote <| List.mem_cons_of_mem _ ·)
    rw [Nat.add_assoc, ← List.count_append] at hs
    refine hs.trans ?_
    simp [Word.guarded]

/-! ### Double quotes -/

theorem readRest_openDouble {t : List Char} (ht : StartsPlain t) :
    readRest commands (fuel + 1) (outside pieces isQuoted) (r.skipTo ('"' :: t) lines) =
      readRest commands fuel (inDouble (.quote :: pieces) isQuoted) (r.skipTo t lines) := by
  rw [readRest_cons _ _ _ _ _ (by decide), ← nextJoined_bind_wordLoop _ _ _ _ _ ht]
  rfl

theorem readRest_closeDouble {t : List Char} (ht : StartsPlain t) :
    readRest commands (fuel + 1) (inDouble pieces isQuoted) (r.skipTo ('"' :: t) lines) =
      readRest commands fuel (outside (.quote :: pieces) true) (r.skipTo t lines) := by
  rw [readRest_cons _ _ _ _ _ (by decide), ← nextJoined_bind_wordLoop _ _ _ _ _ ht]
  rfl

theorem readRest_double {t : List Char} (ht : StartsPlain t) :
    readRest commands (fuel + 1) (inDouble pieces isQuoted) (r.skipTo ('\'' :: t) lines) =
      readRest commands fuel (inDouble (.char '\'' :: pieces) isQuoted) (r.skipTo t lines) := by
  rw [readRest_cons _ _ _ _ _ (by decide), ← nextJoined_bind_wordLoop _ _ _ _ _ ht]
  rfl

theorem startsPlain_marks {marks : Bytes} (hmarks : ∀ c ∈ marks, c = '\'') {t : List Char}
    (ht : StartsPlain t) : StartsPlain (marks ++ t) := by
  cases marks with
  | nil => exact ht
  | cons c marks =>
    obtain rfl : c = '\'' := hmarks c List.mem_cons_self
    exact startsPlain_cons (by decide) (by decide) _

/-- Single quotes in double ones are read up to their end. -/
theorem readRest_inDouble {marks : Bytes} (hmarks : ∀ c ∈ marks, c = '\'') {t : List Char}
    (ht : StartsPlain t) :
    readRest commands (fuel + marks.length) (inDouble pieces isQuoted)
        (r.skipTo (marks ++ t) lines) =
      readRest commands fuel (inDouble ((Word.guarded marks).reverse ++ pieces) isQuoted)
        (r.skipTo t lines) := by
  induction marks generalizing pieces with
  | nil => rfl
  | cons c marks ih =>
    obtain rfl : c = '\'' := hmarks c List.mem_cons_self
    have hrest : ∀ d ∈ marks, d = '\'' := fun d hd => hmarks d (List.mem_cons_of_mem _ hd)
    rw [List.length_cons, ← Nat.add_assoc, List.cons_append,
      readRest_double _ _ _ _ _ _ (startsPlain_marks hrest ht), ih _ hrest]
    simp [Word.guarded, isGuarded]

/-! ### The end of a word -/

/-- What follows a word: nothing, or a character that ends it. -/
def EndsWord (t : List Char) : Prop :=
  ∀ c, t.head? = some c → c = '\n' ∨ endsWord c = true

theorem EndsWord.eq {c : Char} {t : List Char} (h : EndsWord (c :: t)) :
    c = '\n' ∨ c = '<' ∨ c = '>' ∨ c = '(' ∨ c = ')' ∨ c = ';' ∨ c = '&' ∨ c = '|' ∨ c = ' ' ∨
      c = '\t' := by
  simpa [endsWord] using h c rfl

theorem EndsWord.startsPlain {t : List Char} (h : EndsWord t) : StartsPlain t := by
  cases t with
  | nil => intro c hc; cases hc
  | cons c t =>
    apply startsPlain_cons
    · rcases h.eq with rfl | rfl | rfl | rfl | rfl | rfl | rfl | rfl | rfl | rfl <;> decide
    · rcases h.eq with rfl | rfl | rfl | rfl | rfl | rfl | rfl | rfl | rfl | rfl <;> decide

theorem readRest_end {t : List Char} (ht : EndsWord t) :
    readRest commands (fuel + 1) (outside pieces isQuoted) (r.skipTo t lines) =
      .ok (outside pieces isQuoted, t.head?) (r.skipTo t.tail lines) := by
  cases t with
  | nil => rfl
  | cons c t =>
    rcases ht.eq with rfl | rfl | rfl | rfl | rfl | rfl | rfl | rfl | rfl | rfl <;>
      exact (readRest_cons _ _ _ _ _ (by decide) _).trans rfl

end

/-! ## Quoted texts as parts of words -/

/-- The text `u` is **read as** the text `s` by quotes: wherever it stands in a word, and whatever
follows it, it is a part of the word that means `s`, with a piece for every character. -/
structure ReadAs (commands : CommandReader) (u s : Bytes) : Prop where
  startsPlain {t : List Char} (ht : StartsPlain t) : StartsPlain (u ++ t)
  exists_word : ∃ w : Word, w.Means s ∧ w.length = u.length ∧
    ∀ (fuel : Nat) (r : Reading) (lines : Nat) (pieces : Word) (isQuoted : Bool) (t : List Char),
      StartsPlain t →
        readRest commands (fuel + u.length) (outside pieces isQuoted) (r.skipTo (u ++ t) lines) =
          readRest commands fuel (outside (w.reverse ++ pieces) (isQuoted || !u.isEmpty))
            (r.skipTo t (lines + s.count '\n'))

variable {commands : CommandReader}

theorem readAs_nil : ReadAs commands [] [] where
  startsPlain ht := ht
  exists_word := by
    refine ⟨[], Word.means_nil, rfl, fun fuel r lines pieces isQuoted t ht => ?_⟩
    simp

theorem ReadAs.append {u v s t : Bytes} (hu : ReadAs commands u s) (hv : ReadAs commands v t) :
    ReadAs commands (u ++ v) (s ++ t) where
  startsPlain ht := by
    rw [List.append_assoc]
    exact hu.startsPlain (hv.startsPlain ht)
  exists_word := by
    obtain ⟨wu, hwu, hlenu, hreadu⟩ := hu.exists_word
    obtain ⟨wv, hwv, hlenv, hreadv⟩ := hv.exists_word
    refine ⟨wu ++ wv, hwu.append hwv, by rw [List.length_append, List.length_append, hlenu, hlenv],
      fun fuel r lines pieces isQuoted rest hrest => ?_⟩
    have hfuel : fuel + (u ++ v).length = fuel + v.length + u.length := by
      rw [List.length_append]
      omega
    rw [hfuel, List.append_assoc, hreadu _ _ _ _ _ _ (hv.startsPlain hrest),
      hreadv _ _ _ _ _ _ hrest, List.reverse_append, List.append_assoc, List.count_append,
      Nat.add_assoc, Bool.or_assoc]
    cases u <;> simp

theorem readAs_singleQuoted {s : Bytes} (hmarks : ∀ c ∈ s, isMark c = false) (hquote : '\'' ∉ s) :
    ReadAs commands ('\'' :: s ++ ['\'']) s where
  startsPlain _ := startsPlain_cons (by decide) (by decide) _
  exists_word := by
    refine ⟨(Word.guarded s).inQuotes, (Word.means_guarded s).inQuotes,
      by simp [Word.length_inQuotes_guarded], fun fuel r lines pieces isQuoted t ht => ?_⟩
    have hfuel : fuel + ('\'' :: s ++ ['\'']).length = fuel + 1 + s.length + 1 := by
      simp
      omega
    rw [hfuel, List.append_assoc, List.cons_append, readRest_openSingle,
      readRest_inSingle _ _ _ _ _ _ hmarks hquote, List.singleton_append,
      readRest_closeSingle _ _ _ _ _ _ ht]
    simp [Word.inQuotes]

theorem readAs_doubleQuoted {marks : Bytes} (hmarks : ∀ c ∈ marks, c = '\'') :
    ReadAs commands ('"' :: marks ++ ['"']) marks where
  startsPlain _ := startsPlain_cons (by decide) (by decide) _
  exists_word := by
    refine ⟨(Word.guarded marks).inQuotes, (Word.means_guarded marks).inQuotes,
      by simp [Word.length_inQuotes_guarded], fun fuel r lines pieces isQuoted t ht => ?_⟩
    have hfuel : fuel + ('"' :: marks ++ ['"']).length = fuel + 1 + marks.length + 1 := by
      simp
      omega
    have hclose : StartsPlain ('"' :: t) := startsPlain_cons (by decide) (by decide) t
    have hlines : marks.count '\n' = 0 := List.count_eq_zero.2 fun h => by
      cases hmarks _ h
    rw [hfuel, List.append_assoc, List.cons_append, List.singleton_append,
      readRest_openDouble _ _ _ _ _ _ (startsPlain_marks hmarks hclose),
      readRest_inDouble _ _ _ _ _ _ hmarks hclose, readRest_closeDouble _ _ _ _ _ _ ht, hlines]
    simp [Word.inQuotes]

theorem readAs_quoted_go {n : Nat} {s : Bytes} (hlength : s.length < n)
    (hmarks : ∀ c ∈ s, isMark c = false) : ReadAs commands (quoted.go n s) s := by
  induction n generalizing s with
  | zero => cases hlength
  | succ n ih =>
    obtain ⟨plain, marks, rest, rfl, hplain, hall, hnone, hgo⟩ := quoted_go_succ n s
    have hsingle : ReadAs commands ('\'' :: plain ++ ['\'']) plain :=
      readAs_singleQuoted (fun c hc => hmarks c (List.mem_append_left _ hc)) hplain
    rw [hgo]
    refine hsingle.append (.append ?_ ?_)
    · by_cases hempty : marks.isEmpty
      · rw [if_pos hempty, List.isEmpty_iff.1 hempty]
        exact readAs_nil
      · rw [if_neg hempty]
        exact readAs_doubleQuoted hall
    · by_cases hempty : rest.isEmpty
      · rw [if_pos hempty, List.isEmpty_iff.1 hempty]
        exact readAs_nil
      · -- the rest is shorter, as it stands behind single quotes
        have hlt : rest.length < n := by
          have hpos : marks.length ≠ 0 := fun h =>
            hempty (List.isEmpty_iff.2 (hnone (List.length_eq_zero_iff.1 h)))
          simp only [List.length_append] at hlength
          omega
        rw [if_neg hempty]
        exact ih hlt fun c hc => hmarks c (List.mem_append_right _ (List.mem_append_right _ hc))

/-- **A quoted text is read as the text**, whatever quotes and line ends it holds. -/
theorem readAs_quoted {s : Bytes} (hmarks : ∀ c ∈ s, isMark c = false) :
    ReadAs commands (quoted s) s :=
  readAs_quoted_go (Nat.lt_succ_self _) hmarks

/-! ## Quoted texts as tokens -/

/-- A reading that has found a word. -/
def wordFound (r : Reading) (w : Word) : Reading :=
  { r with token := .word, word := w, quoted := true }

theorem unread_head? (r : Reading) (t : List Char) (lines : Nat) :
    unread t.head? (r.skipTo t.tail lines) = .ok () (r.skipTo t lines) := by
  cases t <;> rfl

theorem word_of_readAs {u s : Bytes} {c : Char} (h : ReadAs commands (c :: u) s)
    (hc : isMark c = false) (hlength : u.length + 1 < limit) {t : List Char} (ht : EndsWord t) :
    ∃ w : Word, w.Means s ∧ w.length = u.length + 1 ∧ ∀ r : Reading,
      word commands .none none (some c) (r.skipTo (u ++ t) 0) =
        .ok (outside w.reverse true, t.head?) (r.skipTo t.tail (s.count '\n')) := by
  obtain ⟨w, hw, hlen, hread⟩ := h.exists_word
  refine ⟨w, hw, hlen, fun r => ?_⟩
  have hfuel : limit = limit - (u.length + 2) + 1 + (c :: u).length := by
    rw [List.length_cons]
    omega
  have hloop : wordLoop commands none limit (.start .none) (some c) (r.skipTo (u ++ t) 0) =
      .ok (outside w.reverse true, t.head?) (r.skipTo t.tail (s.count '\n')) := by
    have hrest := hread (limit - (u.length + 2) + 1) r 0 [] false t ht.startsPlain
    rw [← hfuel, Nat.zero_add, readRest_end _ _ _ _ _ _ ht, List.append_nil] at hrest
    exact (readRest_cons commands limit r 0 _ hc (u ++ t)).symm.trans hrest
  unfold word
  rw [bind_of_ok (show checkDelimiter none (some c) _ = .ok (some c) _ from rfl), bind_of_ok hloop]
  rfl

/-- What quotes are read as is no redirection, whatever follows it. -/
theorem wordToken_of_readAs {u s : Bytes} {c : Char} (h : ReadAs commands (c :: u) s)
    (hc : isMark c = false) (hlength : u.length + 1 < limit) {t : List Char} (ht : EndsWord t) :
    ∃ w : Word, w.Means s ∧ w.length = u.length + 1 ∧ ∀ r : Reading,
      wordToken commands (some c) (r.skipTo (u ++ t) 0) =
        .ok .word (wordFound (r.skipTo t (s.count '\n')) w) := by
  obtain ⟨w, hw, hlen, hword⟩ := word_of_readAs h hc hlength ht
  refine ⟨w, hw, hlen, fun r => ?_⟩
  have hfound : (do
      unread t.head?
      modify fun r : Reading => { r with word := w.reverse.reverse, quoted := true }
      found .word : Parse Token) (r.skipTo t.tail (s.count '\n')) =
        .ok .word (wordFound (r.skipTo t (s.count '\n')) w) := by
    rw [bind_of_ok (unread_head? r t _), List.reverse_reverse]
    rfl
  unfold wordToken
  rw [bind_of_ok (hword r)]
  exact hfound

theorem rawToken_of_readAs {u s : Bytes} {c : Char} (h : ReadAs commands (c :: u) s)
    (hc : c = '\'' ∨ c = '"') (hlength : u.length + 1 < limit) {t : List Char} (ht : EndsWord t) :
    ∃ w : Word, w.Means s ∧ w.length = u.length + 1 ∧
      ∀ (r : Reading) (fuel : Nat), r.rest = c :: u ++ t → r.pushedBack = false →
        rawToken commands (fuel + 1) r = .ok .word (wordFound (r.skipTo t (s.count '\n')) w) := by
  have hmark : isMark c = false := by rcases hc with rfl | rfl <;> decide
  have hback : some c ≠ some '\\' := by rcases hc with rfl | rfl <;> decide
  obtain ⟨w, hw, hlen, hword⟩ := wordToken_of_readAs h hmark hlength ht
  refine ⟨w, hw, hlen, fun r fuel hr hpushed => ?_⟩
  have hnext := nextJoined_of_next (next_of_rest hr hmark) hback
  rw [← hword r]
  unfold rawToken
  rw [bind_of_ok (show (get : Parse Reading) r = .ok r r from rfl), hpushed,
    if_neg Bool.false_ne_true, bind_of_ok hnext]
  rcases hc with rfl | rfl <;> rfl

theorem tokenBelow_word (fuel : Nat) (r : Reading) :
    tokenBelow commands (fuel + 1) .word r = .ok .word r := by
  unfold tokenBelow
  rfl

/-- A word in quotes is neither looked up as a keyword nor as an alias. -/
theorem tokenFor_of_rawToken {r r' : Reading} {w : Word}
    (h : rawToken commands limit r = .ok .word (wordFound r' w)) (fuel : Nat)
    (wanted : Expectation) :
    tokenFor commands (fuel + 1) wanted r =
      .ok .word { wordFound r' w with expected := .plain } := by
  unfold tokenFor
  rw [bind_of_ok h]
  split
  · rw [bind_of_ok (show tokenBelow commands limit .word _ = _ from tokenBelow_word (limit - 1) _)]
    rfl
  · rfl

/-- **A quoted text is a token of its own**, and never a keyword or an alias. -/
theorem token_quoted {s : Bytes} (hmarks : ∀ c ∈ s, isMark c = false)
    (hlength : (quoted s).length < limit) {t : List Char} (ht : EndsWord t) :
    ∃ w : Word, w.Means s ∧ w.length = (quoted s).length ∧
      ∀ r : Reading, r.rest = quoted s ++ t → r.pushedBack = false →
        token commands r =
          .ok .word { wordFound (r.skipTo t (s.count '\n')) w with expected := .plain } := by
  obtain ⟨u, hu⟩ : ∃ u, quoted s = '\'' :: u := ⟨_, rfl⟩
  rw [hu] at hlength ⊢
  have hreadAs : ReadAs commands ('\'' :: u) s := hu ▸ readAs_quoted hmarks
  obtain ⟨w, hw, hlen, hraw⟩ := rawToken_of_readAs hreadAs (.inl rfl) hlength ht
  refine ⟨w, hw, hlen, fun r hr hpushed => ?_⟩
  exact tokenFor_of_rawToken (hraw r (limit - 1) hr hpushed) (limit - 1) r.expected

end Parse

end StepScript.Shell
