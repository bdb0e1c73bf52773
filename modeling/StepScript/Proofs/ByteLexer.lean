import StepScript.Proofs.ByteSlices
import StepScript.Proofs.LineLexemes

/-!
# The lexer by byte offsets

The lexer may walk over a line by byte offsets: it finds the length of the next token in bytes, takes
that slice, and goes on behind it. Such a walk fails where an offset falls within a character or
beyond the end, where a length would be negative, and where it comes to a stand. It never fails, and
finds the tokens of the lexer.

Main statements:

* `commentStart?_eq` — where the comment of a line starts;
* `nextToken?_cons` — the kind and the size of the next token;
* `markerLine?_eq`, `walk?_eq` — the tokens of a marker line, and of any other line;
* `tokenizeLine?_eq`, `tokenize?_eq` — the walk finds the tokens of a line, and of a text.
-/

set_option autoImplicit false

namespace StepScript

open Text

/-! ## Places -/

namespace Token

theorem place_append (start : Nat) (ls ms : List Lexeme) :
    place start (ls ++ ms) = place start ls ++ place (start + byteSize (Lexer.flatten ls)) ms := by
  induction ls generalizing start with
  | nil => simp [place]
  | cons l ls ih => simp [place, ih, Nat.add_assoc]

theorem place_cons (start : Nat) (l : Lexeme) (ls : List Lexeme) :
    place start (l :: ls) = ⟨l, start⟩ :: place (start + byteSize l.text) ls := rfl

end Token

namespace ByteLexer

variable {lang : Language}

/-! ## Where a comment starts -/

/-- The byte at which a comment starts, where the scan over a line has come to the byte `pos`, stands
at `n`, and has the text `s` before it. -/
def commentStartFrom? (token line : List Char) (pos : Nat) (n : Nesting) :
    List Char → Option (Option Nat)
  | [] => some none
  | c :: s =>
    if n.isOutside && !isDelimiter c then
      (sliceFrom? line pos).bind fun rest =>
        if (after? token rest).isSome then some (some pos)
        else commentStartFrom? token line (pos + c.utf8Size) (n.next c) s
    else commentStartFrom? token line (pos + c.utf8Size) (n.next c) s

/-- The byte at which the comment of a line starts, if it has one. -/
def commentStart? (lang : Language) (line : List Char) : Option (Option Nat) :=
  if lang.comment.isEmpty then some none
  else commentStartFrom? lang.comment line 0 .outside line

theorem commentStartFrom?_eq (token : List Char) {line s : List Char} {pos : Nat} (n : Nesting)
    (h : sliceFrom? line pos = some s) :
    commentStartFrom? token line pos n s =
      some ((cutCommentFrom token n s).map fun p => pos + byteSize p.1) := by
  induction s generalizing pos n with
  | nil => rfl
  | cons c s ih =>
      have hnext := sliceFrom?_add_utf8Size h
      have hlater : commentStartFrom? token line (pos + c.utf8Size) (n.next c) s =
          some (((cutCommentFrom token (n.next c) s).map fun p => (c :: p.1, p.2)).map
            fun p => pos + byteSize p.1) := by
        rw [ih (n.next c) hnext, Option.map_map]
        simp [byteSize, Function.comp_def, Nat.add_assoc]
      rw [commentStartFrom?, cutCommentFrom, startsComment, h, Option.bind_some]
      by_cases hplain : (n.isOutside && !isDelimiter c) = true
      · rw [if_pos hplain, hplain, Bool.true_and]
        split
        · rfl
        · exact hlater
      · rw [if_neg hplain, Bool.eq_false_iff.2 hplain, Bool.false_and,
          if_neg Bool.false_ne_true]
        exact hlater

theorem commentStart?_eq (lang : Language) (line : List Char) :
    commentStart? lang line = some ((lang.cutComment line).map fun p => byteSize p.1) := by
  rw [commentStart?, Language.cutComment]
  split
  · rfl
  · simpa using commentStartFrom?_eq lang.comment .outside (sliceFrom?_zero line)

/-! ## The next token -/

def find? (c : Char) (s : List Char) : Option Nat :=
  (cutAt c s).map fun p => byteSize p.1

/-- The size of the first of some words that a text starts with as a value of its own. -/
def wordSize? (words : List (List Char)) (s : List Char) : Option Nat :=
  words.findSome? fun word =>
    (after? word s).bind fun rest => if Lexer.endsValue rest then some (byteSize word) else none

def strategySize? (s : List Char) : Option Nat :=
  (after? [Strategy.mark] s).bind fun name => Strategy.all.findSome? fun t =>
    (after? t.spelling name).bind fun rest =>
      if Lexer.endsValue rest then some (1 + byteSize t.spelling) else none

/-- The kind and the size of the token that a text starts with, if it is no brace and no word. -/
def markToken (s : List Char) : TokenKind × Nat :=
  let digits := ((Utf8.encode s).takeWhile isDigitByte).length
  if (after? ['=', '='] s).isSome then (.operator, 2)
  else if (after? ['['] s).isSome ∨ (after? [']'] s).isSome then (.bracket, 1)
  else if (after? [','] s).isSome then (.comma, 1)
  else if 0 < digits then (.number, digits)
  else (.text, s.head?.elim 1 Char.utf8Size)

def nextToken? (s : List Char) : Option (TokenKind × Nat) :=
  let image := (after? ['@', '{'] s).bind (find? '}')
  let braced := (after? ['{'] s).bind (find? '}')
  match image, braced, Keyword.atStart? s with
  | some close, _, _ => some (.image, 2 + close + 1)
  | none, some close, _ =>
    ((after? ['{'] s).bind fun inner => slice? inner 0 close).map fun body =>
      (if ParamValue.isCoordinateBody body then .coordinate else .locator, 1 + close + 1)
  | none, none, some (k, _) => some (.command, byteSize k.spelling)
  | none, none, none =>
    match wordSize? (Direction.all.map (·.spelling)) s,
        wordSize? (AssertionState.all.map (·.spelling)) s with
    | some size, _ => some (.direction, size)
    | none, some size => some (.state, size)
    | none, none => some (markToken s)

/-! ### Sizes and lengths -/

/-- The first `c` of a text is found where the text is cut. -/
theorem bind_find?_eq (o : Option (List Char)) (c : Char) :
    o.bind (find? c) = (o.bind (cutAt c)).map fun p => byteSize p.1 := by
  cases o <;> rfl

/-- What is in front of a brace, and the brace. -/
theorem byteSize_take_closed (before after : List Char) :
    byteSize ((before ++ '}' :: after).take (before.length + 1)) = byteSize before + 1 := by
  have hassoc : before ++ '}' :: after = (before ++ ['}']) ++ after := by simp
  rw [hassoc, List.take_left' (by simp), byteSize_append]
  rfl

/-- The size of a word is that of as many characters of the text. -/
theorem wordSize?_eq (words : List (List Char)) (s : List Char) :
    wordSize? words s = (Lexer.wordLength? words s).map fun n => byteSize (s.take n) := by
  rw [wordSize?, Lexer.wordLength?]
  induction words with
  | nil => rfl
  | cons word words ih =>
      rw [List.findSome?_cons, List.findSome?_cons]
      cases hrest : after? word s with
      | none => exact ih
      | some rest =>
          rw [Option.bind_some, Option.bind_some]
          by_cases hends : Lexer.endsValue rest = true
          · rw [if_pos hends, if_pos hends, after?_eq_some.1 hrest]
            simp
          · rw [if_neg hends, if_neg hends]
            exact ih

theorem strategySize?_eq (s : List Char) :
    strategySize? s = (Lexer.strategyLength? s).map fun n => byteSize (s.take n) := by
  have hmark : ∀ t : Strategy, after? (Strategy.mark :: t.spelling) s =
      (after? [Strategy.mark] s).bind (after? t.spelling) := by
    intro t
    cases s with
    | nil => rfl
    | cons c s =>
        rw [after?, after?]
        split
        · rfl
        · rfl
  rw [Lexer.strategyLength?, ← wordSize?_eq, wordSize?, List.findSome?_map, strategySize?]
  simp only [Function.comp_def, hmark]
  cases after? [Strategy.mark] s with
  | none => exact (List.findSome?_eq_none_iff.2 fun t _ => rfl).symm
  | some name => rfl

/-- A word that is found has a character, if none of the words is empty. -/
theorem pos_of_wordLength? {words : List (List Char)} {s : List Char} {n : Nat}
    (hwords : [] ∉ words) (h : Lexer.wordLength? words s = some n) : 0 < n := by
  obtain ⟨word, hword, h⟩ := List.exists_of_findSome?_eq_some h
  obtain ⟨rest, -, h⟩ := Option.bind_eq_some_iff.1 h
  split at h
  · rw [← Option.some.inj h]
    exact List.length_pos_of_ne_nil fun hnil => hwords (hnil ▸ hword)
  · cases h

/-- The size of the first characters of a text, the first of which is known. -/
theorem byteSize_take_cons {n : Nat} (h : 0 < n) (c : Char) (s : List Char) :
    byteSize ((c :: s).take n) = byteSize (c :: s.take (n - 1)) := by
  rw [List.take_cons h]

theorem byteSize_takeWhile_isDigit_cons {c : Char} (h : c.isDigit = true) (s : List Char) :
    byteSize ((c :: s).takeWhile Char.isDigit) =
      byteSize (c :: s.take (s.takeWhile Char.isDigit).length) := by
  rw [List.takeWhile_cons_of_pos h,
    ← List.prefix_iff_eq_take.1 (List.takeWhile_prefix Char.isDigit)]

/-- The kind and the size of a token that starts with no brace and no word. -/
theorem markToken_cons (c : Char) (s : List Char) :
    markToken (c :: s) =
      let lexeme : TokenKind × Nat :=
        if (after? ['=', '='] (c :: s)).isSome then (.operator, 1)
        else if c = '[' ∨ c = ']' then (.bracket, 0)
        else if c = ',' then (.comma, 0)
        else if c.isDigit then (.number, (s.takeWhile Char.isDigit).length)
        else (.text, 0)
      (lexeme.1, byteSize (c :: s.take lexeme.2)) := by
  have hstarts : ∀ d : Char, (after? [d] (c :: s)).isSome = true ↔ c = d := by
    intro d
    rw [isSome_after?_iff, List.cons_prefix_cons, eq_comm]
    simp
  simp only [markToken, hstarts, length_takeWhile_isDigitByte]
  split
  · next hoperator =>
    obtain ⟨rest, hrest⟩ := Option.isSome_iff_exists.1 hoperator
    obtain ⟨rfl, rfl⟩ : c = '=' ∧ s = '=' :: rest := by simpa using after?_eq_some.1 hrest
    rfl
  · split
    · next hbracket =>
      rcases hbracket with rfl | rfl <;> rfl
    · split
      · next hcomma =>
        rw [hcomma]
        rfl
      · by_cases hdigit : c.isDigit = true
        · have hpos : 0 < byteSize ((c :: s).takeWhile Char.isDigit) := by
            rw [List.takeWhile_cons_of_pos hdigit]
            exact byteSize_pos (List.cons_ne_nil _ _)
          rw [if_pos hpos, if_pos hdigit, byteSize_takeWhile_isDigit_cons hdigit]
        · rw [List.takeWhile_cons_of_neg hdigit, if_neg hdigit]
          simp [byteSize]

/-- The kind and the size of the next token are those of the next lexeme. -/
theorem nextToken?_cons (c : Char) (s : List Char) :
    nextToken? (c :: s) =
      some ((Lexer.scan c s).1, byteSize (c :: s.take (Lexer.scan c s).2)) := by
  unfold nextToken? Lexer.scan
  dsimp only
  rw [bind_find?_eq, bind_find?_eq, wordSize?_eq, wordSize?_eq]
  cases himage : (after? ['@', '{'] (c :: s)).bind (cutAt '}') with
  | some p =>
      obtain ⟨inner, hinner, hcut⟩ := Option.bind_eq_some_iff.1 himage
      obtain ⟨rfl, rfl⟩ : c = '@' ∧ s = '{' :: inner := by simpa using after?_eq_some.1 hinner
      have hsize : byteSize ('@' :: ('{' :: inner).take (p.1.length + 2)) =
          2 + byteSize p.1 + 1 := by
        rw [List.take_succ_cons, (eq_of_cutAt hcut).1, byteSize, byteSize, byteSize_take_closed]
        show 1 + (1 + (byteSize p.1 + 1)) = _
        omega
      rw [Option.map_some, hsize]
  | none =>
      cases hbraced : (after? ['{'] (c :: s)).bind (cutAt '}') with
      | some p =>
          obtain ⟨inner, hinner, hcut⟩ := Option.bind_eq_some_iff.1 hbraced
          obtain ⟨rfl, rfl⟩ : c = '{' ∧ s = inner := by simpa using after?_eq_some.1 hinner
          have heq := (eq_of_cutAt hcut).1
          have hbody : slice? s 0 (byteSize p.1) = some p.1 := by
            rw [heq, slice?_append]
          have hsize : byteSize ('{' :: s.take (p.1.length + 1)) = 1 + byteSize p.1 + 1 := by
            rw [heq, byteSize, byteSize_take_closed]
            rfl
          rw [Option.map_none, Option.map_some]
          dsimp only
          rw [hinner, Option.bind_some, hbody, hsize]
          rfl
      | none =>
          rw [Option.map_none]
          cases hkeyword : Keyword.atStart? (c :: s) with
          | some found =>
              obtain ⟨k, rest⟩ := found
              have hpos : 0 < k.spelling.length := List.length_pos_of_ne_nil k.spelling_ne_nil
              dsimp only
              rw [← byteSize_take_cons hpos, (Keyword.eq_of_atStart? hkeyword).1]
              simp
          | none =>
              dsimp only
              cases hdirection : Lexer.wordLength? (Direction.all.map (·.spelling)) (c :: s) with
              | some n =>
                  rw [Option.map_some]
                  dsimp only
                  rw [byteSize_take_cons (pos_of_wordLength? (by decide) hdirection)]
              | none =>
                  cases hstate : Lexer.wordLength? (AssertionState.all.map (·.spelling)) (c :: s) with
                  | some n =>
                      rw [Option.map_none, Option.map_some]
                      dsimp only
                      rw [byteSize_take_cons (pos_of_wordLength? (by decide) hstate)]
                  | none =>
                      rw [Option.map_none]
                      dsimp only
                      exact congrArg some (markToken_cons c s)

/-! ## Marker lines -/

/-- The token for a slice of a line that stands in a text behind `base` bytes. -/
def token? (kind : TokenKind) (line : List Char) (base start stop : Nat) : Option Token :=
  (slice? line start stop).map fun text => ⟨⟨kind, text⟩, base + start⟩

/-- The free text of a slice, if there is something in it. -/
def gap? (line : List Char) (base start stop : Nat) : Option (List Token) :=
  if start < stop then (token? .text line base start stop).map fun t => [t] else some []

/-- The tokens of a line that starts with the steps keyword and a colon, of which the sizes of the
blanks in front of each are given. -/
def markerTokens? (lang : Language) (line : List Char) (base lead blank : Nat) :
    Option (List Token) := do
  let keywordEnd := lead + byteSize lang.stepsKeyword
  let colon := keywordEnd + blank
  let before ← gap? line base 0 lead
  let keyword ← token? .steps line base lead keywordEnd
  let between ← gap? line base keywordEnd colon
  let mark ← token? .text line base colon (colon + 1)
  let behind ← gap? line base (colon + 1) (byteSize line)
  some (before ++ keyword :: between ++ mark :: behind)

/-- The tokens of a line, if it starts with the steps keyword and a colon. -/
def markerLine? (lang : Language) (line : List Char) (base : Nat) :
    Option (Option (List Token)) := do
  let body := trimStart line
  let lead ← sub? (byteSize line) (byteSize body)
  match after? lang.stepsKeyword body with
  | none => some none
  | some rest =>
    let blank ← sub? (byteSize rest) (byteSize (trimStart rest))
    let tail ← sliceFrom? rest blank
    if (after? [':'] tail).isSome then (markerTokens? lang line base lead blank).map some
    else some none

section

variable {line text : List Char} {start stop : Nat}

theorem token?_of_slice? (kind : TokenKind) (base : Nat) (h : slice? line start stop = some text) :
    token? kind line base start stop = some ⟨⟨kind, text⟩, base + start⟩ := by
  rw [token?, h]
  rfl

theorem gap?_of_slice? (base : Nat) (h : slice? line start stop = some text) :
    gap? line base start stop = some (Token.place (base + start) (Lexer.freeText text)) := by
  obtain ⟨back, -, rfl⟩ := slice?_eq_some.1 h
  rw [gap?, token?_of_slice? .text base h]
  cases text with
  | nil =>
      rw [byteSize_nil, Nat.add_zero, if_neg (Nat.lt_irrefl start)]
      rfl
  | cons c text =>
      rw [if_pos (Nat.lt_add_of_pos_right (byteSize_pos (List.cons_ne_nil c text)))]
      rfl

end

/-- What is left of a text when its indentation is taken off, in bytes. -/
theorem sub?_trimStart (s : List Char) :
    sub? (byteSize s) (byteSize (trimStart s)) = some (byteSize (indentation s)) := by
  have hsize : byteSize s = byteSize (trimStart s) + byteSize (indentation s) := by
    rw [Nat.add_comm, ← byteSize_append, indentation_append_trimStart]
  rw [hsize, sub?_add]

/-- The parts of a marker line follow one another, and so do their slices. -/
theorem markerTokens?_eq (lang : Language) (base : Nat) {line lead blank tail : List Char}
    (hline : line = lead ++ (lang.stepsKeyword ++ (blank ++ ([':'] ++ tail)))) :
    markerTokens? lang line base (byteSize lead) (byteSize blank) =
      some (Token.place base (Lexer.freeText lead ++
        ⟨.steps, lang.stepsKeyword⟩ :: Lexer.freeText blank ++
          ⟨.text, [':']⟩ :: Lexer.freeText tail)) := by
  have hlead : sliceFrom? line 0 =
      some (lead ++ (lang.stepsKeyword ++ (blank ++ ([':'] ++ tail)))) := by
    rw [sliceFrom?_zero, hline]
  have hkeyword := sliceFrom?_add hlead
  have hblank := sliceFrom?_add hkeyword
  have hcolon := sliceFrom?_add hblank
  have htail := sliceFrom?_add hcolon
  have hend := byteSize_of_sliceFrom? htail
  rw [← List.append_nil tail] at htail
  have hbefore := gap?_of_slice? base (slice?_of_sliceFrom? hlead)
  have hsteps := token?_of_slice? .steps base (slice?_of_sliceFrom? hkeyword)
  have hbetween := gap?_of_slice? base (slice?_of_sliceFrom? hblank)
  have hmark := token?_of_slice? .text base (slice?_of_sliceFrom? hcolon)
  have hbehind := gap?_of_slice? base (slice?_of_sliceFrom? htail)
  have hone : byteSize [':'] = 1 := rfl
  rw [← hend] at hbehind
  simp only [Nat.zero_add, hone] at hbefore hsteps hbetween hmark hbehind
  rw [markerTokens?, hbefore, hsteps, hbetween, hmark, hbehind]
  simp [Token.place_append, Token.place, Nat.add_assoc, hone]

theorem markerLine?_eq (lang : Language) (line : List Char) (base : Nat) :
    markerLine? lang line base = some ((Lexer.lexMarker? lang line).map (Token.place base)) := by
  rw [markerLine?, Lexer.lexMarker?, sub?_trimStart]
  dsimp only [Option.bind_eq_bind, Option.bind_some]
  cases hrest : after? lang.stepsKeyword (trimStart line) with
  | none => rfl
  | some rest =>
      have hslice : sliceFrom? rest (byteSize (indentation rest)) = some (trimStart rest) :=
        sliceFrom?_eq_some.2 ⟨_, (indentation_append_trimStart rest).symm, rfl⟩
      dsimp only [Option.bind_some]
      rw [sub?_trimStart, Option.bind_some, hslice, Option.bind_some]
      cases htail : after? [':'] (trimStart rest) with
      | none => rfl
      | some tail =>
          have hline : line = indentation line ++ (lang.stepsKeyword ++
              (indentation rest ++ ([':'] ++ tail))) := by
            rw [← after?_eq_some.1 htail, indentation_append_trimStart, ← after?_eq_some.1 hrest,
              indentation_append_trimStart]
          rw [Option.isSome_some, if_pos rfl, markerTokens?_eq lang base hline]
          rfl

/-! ## Other lines -/

/-- The token of a strategy that follows a token of the given kind, if there is one, and the byte
behind it. -/
def suffix? (line : List Char) (base : Nat) (kind : TokenKind) (pos : Nat) :
    Option (List Token × Nat) :=
  if Lexer.takesStrategy kind then do
    let rest ← sliceFrom? line pos
    match strategySize? rest with
    | some size =>
      let text ← slice? rest 0 size
      some ([⟨⟨.strategy, text⟩, base + pos⟩], pos + size)
    | none => some ([], pos)
  else some ([], pos)

/-- The tokens of a line from a byte on. The walk must come forward at every token. -/
def walk? (line : List Char) (base pos : Nat) : Option (List Token) :=
  if _ : pos < byteSize line then do
    let rest ← sliceFrom? line pos
    let (kind, size) ← nextToken? rest
    let text ← slice? rest 0 size
    let (suffix, next) ← suffix? line base kind (pos + size)
    if _ : pos < next then
      let later ← walk? line base next
      some (⟨⟨kind, text⟩, base + pos⟩ :: suffix ++ later)
    else none
  else some []
termination_by byteSize line - pos

theorem lexFrom_nil (suffix : Bool) : Lexer.lexFrom suffix [] = [] := by
  rw [Lexer.lexFrom]

/-- The strategy in front of a text, if there is one, is found, and the lexer goes on behind it. -/
theorem exists_suffix? {line s : List Char} {pos : Nat} (base : Nat) (kind : TokenKind)
    (h : sliceFrom? line pos = some s) :
    ∃ ls rest, s = Lexer.flatten ls ++ rest ∧
      Lexer.lexFrom (Lexer.takesStrategy kind) s = ls ++ Lexer.lexFrom false rest ∧
      suffix? line base kind pos =
        some (Token.place (base + pos) ls, pos + byteSize (Lexer.flatten ls)) := by
  cases htakes : Lexer.takesStrategy kind with
  | false => exact ⟨[], s, rfl, rfl, by rw [suffix?, htakes]; rfl⟩
  | true =>
      have hsuffix : suffix? line base kind pos = match strategySize? s with
          | some size => (slice? s 0 size).bind fun text =>
              some ([⟨⟨.strategy, text⟩, base + pos⟩], pos + size)
          | none => some ([], pos) := by
        rw [suffix?, htakes, if_pos rfl, h]
        rfl
      rw [hsuffix, strategySize?_eq]
      cases s with
      | nil => exact ⟨[], [], rfl, by rw [lexFrom_nil, lexFrom_nil]; rfl, rfl⟩
      | cons c s =>
          rw [Lexer.lexFrom, if_pos rfl]
          cases hstrategy : Lexer.strategyLength? (c :: s) with
          | none => exact ⟨[], c :: s, rfl, (Lexer.lexFrom_cons c s).symm, rfl⟩
          | some n =>
              have htext : (c :: s).take n = c :: s.take (n - 1) :=
                List.take_cons (pos_of_wordLength? (by decide) hstrategy)
              have hslice : slice? (c :: s) 0 (byteSize (c :: s.take (n - 1))) =
                  some (c :: s.take (n - 1)) := by
                have := slice?_append (c :: s.take (n - 1)) (s.drop (n - 1))
                rwa [List.cons_append, List.take_append_drop] at this
              refine ⟨[⟨.strategy, c :: s.take (n - 1)⟩], s.drop (n - 1), by simp, rfl, ?_⟩
              rw [Option.map_some, htext]
              dsimp only
              rw [hslice]
              simp [Token.place]

/-- The token that a text starts with is found, and the lexer goes on behind it. -/
theorem exists_nextToken? {s : List Char} (h : s ≠ []) :
    ∃ kind text rest, text ≠ [] ∧ s = text ++ rest ∧
      Lexer.lexFrom false s = ⟨kind, text⟩ :: Lexer.lexFrom (Lexer.takesStrategy kind) rest ∧
      nextToken? s = some (kind, byteSize text) := by
  obtain ⟨c, s, rfl⟩ := List.exists_cons_of_ne_nil h
  exact ⟨(Lexer.scan c s).1, c :: s.take (Lexer.scan c s).2, s.drop (Lexer.scan c s).2,
    List.cons_ne_nil _ _, by simp, Lexer.lexFrom_cons c s, nextToken?_cons c s⟩

theorem walk?_eq {line s : List Char} {pos : Nat} (base : Nat) (h : sliceFrom? line pos = some s) :
    walk? line base pos = some (Token.place (base + pos) (Lexer.lexFrom false s)) := by
  -- the induction is on what is left of the line
  induction hn : s.length using Nat.strongRecOn generalizing s pos with
  | _ n ih =>
      have hsize := byteSize_of_sliceFrom? h
      by_cases hs : s = []
      · rw [walk?, dif_neg (by rw [hsize, hs]; simp), hs, lexFrom_nil]
        rfl
      · obtain ⟨kind, text, behind, htext, rfl, hlex, hnext⟩ := exists_nextToken? hs
        have hbehind := sliceFrom?_add h
        obtain ⟨ls, rest, rfl, hsuffixed, hsuffix⟩ := exists_suffix? base kind hbehind
        have hlater := sliceFrom?_add hbehind
        have hpos := byteSize_pos htext
        have hshort : rest.length < n := by
          have := List.length_pos_of_ne_nil htext
          simp only [List.length_append] at hn
          omega
        have hinside : pos < byteSize line := by
          rw [hsize, byteSize_append]
          omega
        have hforward : pos < pos + byteSize text + byteSize (Lexer.flatten ls) := by omega
        rw [walk?, dif_pos hinside, h]
        dsimp only [Option.bind_eq_bind, Option.bind_some]
        rw [hnext]
        dsimp only [Option.bind_some]
        rw [slice?_append]
        dsimp only [Option.bind_some]
        rw [hsuffix]
        dsimp only [Option.bind_some]
        rw [dif_pos hforward, ih _ hshort hlater rfl, hlex, hsuffixed, Token.place_cons,
          Token.place_append]
        simp [Nat.add_assoc]

/-! ## Lines and texts -/

def lexCode? (lang : Language) (line : List Char) (base : Nat) : Option (List Token) := do
  match ← markerLine? lang line base with
  | some tokens => some tokens
  | none => walk? line base 0

/-- The tokens of a line that stands in a text behind `base` bytes. What stands in front of a comment
is a line of its own, and must be shorter. -/
def lexLine? (lang : Language) (line : List Char) (base : Nat) : Option (List Token) :=
  (commentStart? lang line).bind fun start =>
    match start with
    | none => lexCode? lang line base
    | some pos =>
      (if 0 < pos then
        (slice? line 0 pos).bind fun code =>
          if _ : code.length < line.length then lexLine? lang code base else none
      else some []).bind fun code =>
        (sliceFrom? line pos).map fun comment => code ++ [⟨⟨.comment, comment⟩, base + pos⟩]
termination_by line.length

/-- The token of the end of a line in front of the byte `offset`. -/
def newline? (text : List Char) (offset : Nat) : Option Token :=
  (sub? offset 1).bind fun start =>
    (slice? text start offset).map fun newline => ⟨⟨.newline, newline⟩, start⟩

/-- The tokens of the lines of a text from the `i`-th one on, which starts at the byte `offset`. -/
def lexLines? (lang : Language) (text : List Char) (i offset : Nat) :
    List (List Char) → Option (List Token)
  | [] => some []
  | line :: rest =>
    (if 0 < i then (newline? text offset).map fun t => [t] else some []).bind fun newline =>
      (lexLine? lang line offset).bind fun tokens =>
        (lexLines? lang text (i + 1) (offset + byteSize line + 1) rest).map fun later =>
          newline ++ tokens ++ later

def tokenizeLine? (lang : Language) (line : List Char) : Option (List Token) :=
  lexLine? lang line 0

def tokenize? (lang : Language) (s : List Char) : Option (List Token) :=
  lexLines? lang s 0 0 (splitLines s)

theorem lexCode?_eq (lang : Language) (line : List Char) (base : Nat) :
    lexCode? lang line base = some (Token.place base (Lexer.lexCode lang line)) := by
  rw [lexCode?, markerLine?_eq, Lexer.lexCode]
  cases Lexer.lexMarker? lang line with
  | some ls => rfl
  | none => exact walk?_eq base (sliceFrom?_zero line)

theorem lexLine?_of_cutComment (base : Nat) {line : List Char} (h : lang.cutComment line = none) :
    lexLine? lang line base = some (Token.place base (Lexer.lexCode lang line)) := by
  rw [lexLine?, commentStart?_eq, h]
  exact lexCode?_eq lang line base

theorem lexCode_nil (lang : Language) : Lexer.lexCode lang [] = [] := by
  have hmarker : Lexer.lexMarker? lang [] = none := by
    cases h : Lexer.lexMarker? lang [] with
    | none => rfl
    | some ls =>
        obtain ⟨rest, tail, hrest, htail, -⟩ := Lexer.exists_of_lexMarker? h
        obtain ⟨-, rfl⟩ := List.append_eq_nil_iff.1 hrest.symm
        cases htail
  rw [Lexer.lexCode, hmarker, Option.getD_none, lexFrom_nil]

/-- A comment is not empty. -/
theorem comment_ne_nil {line code comment : List Char}
    (h : lang.cutComment line = some (code, comment)) : comment ≠ [] := by
  unfold Language.cutComment at h
  split at h
  · cases h
  · rintro rfl
    cases (eq_of_cutCommentFrom h).2

theorem lexLine?_eq (lang : Language) (line : List Char) (base : Nat) :
    lexLine? lang line base = some (Token.place base (Lexer.lexLine lang line)) := by
  rw [Lexer.lexLine]
  cases hcut : lang.cutComment line with
  | none => exact lexLine?_of_cutComment base hcut
  | some p =>
      obtain ⟨code, comment⟩ := p
      have hline := Language.eq_of_cutComment hcut
      have hcomment : sliceFrom? line (byteSize code) = some comment :=
        sliceFrom?_eq_some.2 ⟨code, hline, rfl⟩
      have hslice : slice? line 0 (byteSize code) = some code := by
        rw [hline, slice?_append]
      have hshort : code.length < line.length := by
        rw [hline, List.length_append]
        exact Nat.lt_add_of_pos_right (List.length_pos_of_ne_nil (comment_ne_nil hcut))
      -- there is no second comment in front of the comment
      have hcode := lexLine?_of_cutComment base (Language.cutComment_code hcut)
      have hfront : (if 0 < byteSize code then (slice? line 0 (byteSize code)).bind fun code =>
          if _ : code.length < line.length then lexLine? lang code base else none
        else some []) = some (Token.place base (Lexer.lexCode lang code)) := by
        split
        · rw [hslice, Option.bind_some, dif_pos hshort, hcode]
        · next hempty =>
          have hnil : code = [] := byteSize_eq_zero.1 (Nat.eq_zero_of_not_pos hempty)
          rw [hnil, lexCode_nil]
          rfl
      rw [lexLine?, commentStart?_eq, hcut]
      dsimp only [Option.bind_some, Option.map_some]
      rw [hfront, hcomment, Token.place_append, Lexer.flatten_lexCode]
      rfl

theorem tokenizeLine?_eq (lang : Language) (line : List Char) :
    tokenizeLine? lang line = some (Token.ofLine lang line) :=
  lexLine?_eq lang line 0

/-- The lexemes of the lines behind the first one, each behind the end of the line before. -/
def laterLexemes (lang : Language) (lines : List (List Char)) : List Lexeme :=
  lines.flatMap fun line => ⟨.newline, ['\n']⟩ :: Lexer.lexLine lang line

theorem lexLines_cons (lang : Language) (line : List Char) (rest : List (List Char)) :
    Lexer.lexLines lang (line :: rest) = Lexer.lexLine lang line ++ laterLexemes lang rest := by
  induction rest generalizing line with
  | nil => simp [Lexer.lexLines, laterLexemes]
  | cons next rest ih =>
      rw [Lexer.lexLines, ih, laterLexemes, laterLexemes, List.flatMap_cons, List.cons_append]
      exact List.cons_ne_nil _ _

theorem newline?_eq {text rest : List Char} {start : Nat}
    (h : sliceFrom? text start = some ('\n' :: rest)) :
    newline? text (start + 1) = some ⟨⟨.newline, ['\n']⟩, start⟩ := by
  have hslice : slice? text start (start + 1) = some ['\n'] :=
    slice?_eq_some.2 ⟨rest, h, rfl⟩
  rw [newline?, Nat.add_comm start 1, sub?_add, Option.bind_some, Nat.add_comm 1 start, hslice]
  rfl

theorem lexLines?_later {text : List Char} {i start : Nat} (hi : 0 < i) {lines : List (List Char)}
    (h : sliceFrom? text start = some (Lexer.flatten (laterLexemes lang lines))) :
    lexLines? lang text i (start + 1) lines =
      some (Token.place start (laterLexemes lang lines)) := by
  induction lines generalizing i start with
  | nil => rfl
  | cons line rest ih =>
      have hlexemes : laterLexemes lang (line :: rest) =
          ⟨.newline, ['\n']⟩ :: (Lexer.lexLine lang line ++ laterLexemes lang rest) := by
        rw [laterLexemes, List.flatMap_cons]
        rfl
      rw [hlexemes, Lexer.flatten_cons, Lexer.flatten_append, Lexer.flatten_lexLine] at h
      have hline : sliceFrom? text (start + 1) =
          some (line ++ Lexer.flatten (laterLexemes lang rest)) := sliceFrom?_add h
      have hlater := ih (Nat.succ_pos i) (sliceFrom?_add hline)
      rw [lexLines?, if_pos hi, newline?_eq h, lexLine?_eq, hlater, hlexemes, Token.place_cons,
        Token.place_append, Lexer.flatten_lexLine]
      rfl

theorem tokenize?_eq (lang : Language) (s : List Char) :
    tokenize? lang s = some (Token.ofText lang s) := by
  rw [tokenize?, Token.ofText, Lexer.lexText]
  have hflatten := Lexer.flatten_lexText lang s
  rw [Lexer.lexText] at hflatten
  cases hlines : splitLines s with
  | nil => exact absurd hlines (splitLines_ne_nil s)
  | cons line rest =>
      rw [hlines, lexLines_cons, Lexer.flatten_append, Lexer.flatten_lexLine] at hflatten
      have hlater : sliceFrom? s (byteSize line) = some (Lexer.flatten (laterLexemes lang rest)) :=
        sliceFrom?_eq_some.2 ⟨line, hflatten.symm, rfl⟩
      rw [lexLines?, if_neg (Nat.lt_irrefl 0), lexLine?_eq, Nat.zero_add (byteSize line),
        lexLines?_later Nat.one_pos hlater, lexLines_cons, Token.place_append,
        Lexer.flatten_lexLine, Nat.zero_add]
      rfl

end ByteLexer

end StepScript
