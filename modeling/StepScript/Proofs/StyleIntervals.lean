import Mathlib.Data.List.Forall2
import StepScript.Proofs.MatchPlaces
import StepScript.Proofs.ShownLines
import StepScript.Proofs.TokenCover
import StepScript.Style.Highlighter

/-!
# What style intervals cover

A highlighter is given offsets in bytes, by the lexer for the whole text and by a search engine for
each line, and answers with offsets in characters. It converts them with a running count: one along
the tokens, another along the lines, with one more character for each line feed. `highlight?` does
this as the text is cut, and fails where a cut falls within a character; the engine is left open, and
all that is asked of it is that what it finds is a part of the line.

Main statements:

* `forall₂_lexemeIntervals` — the count along the tokens never loses its place;
* `exists_overlays?` — nor does the one along the lines, and no cut fails;
* `StyleRule.inLines_toByteRule`, `highlight?_toByteRule` — the search engine of this library finds
  parts of lines, and with it the walk is `Highlighter.highlight`;
* `Highlighter.soundStyles` — what is promised of the styles of a text.
-/

set_option autoImplicit false

namespace StepScript

open Text

/-! ## Parts of a text -/

namespace Text

/-- A slice between two bytes is a part of the text, and the bytes are counted in front of it. -/
theorem exists_of_slice? {s text : List Char} {start stop : Nat}
    (h : slice? s start stop = some text) :
    ∃ before back, s = before ++ text ++ back ∧ start = byteSize before ∧
      stop = byteSize (before ++ text) := by
  obtain ⟨back, hback, rfl⟩ := slice?_eq_some.1 h
  obtain ⟨before, rfl, rfl⟩ := sliceFrom?_eq_some.1 hback
  exact ⟨before, back, by simp, rfl, by simp⟩

/-- A part of a text is the slice between its bytes. -/
theorem slice?_of_eq_append {s before text back : List Char} (h : s = before ++ text ++ back) :
    slice? s (byteSize before) (byteSize (before ++ text)) = some text := by
  refine slice?_eq_some.2 ⟨back, sliceFrom?_eq_some.2 ⟨before, ?_, rfl⟩, ?_⟩
  · rw [h, List.append_assoc]
  · rw [byteSize_append]

end Text

namespace Interval

def chars (i : Interval) (s : List Char) : List Char :=
  (s.take i.stop).drop i.start

/-- An interval on the part `text` of a text, behind `front`. -/
structure Shows (i : Interval) (s front text : List Char) : Prop where
  exists_eq : ∃ back, s = front ++ text ++ back
  start_eq : i.start = front.length
  stop_eq : i.stop = front.length + text.length

/-- An interval within one of the lines of a text. -/
def InLine (i : Interval) (s : List Char) : Prop :=
  ∃ front line back, splitLines s = front ++ line :: back ∧
    lineOffset front ≤ i.start ∧ i.stop ≤ lineOffset front + line.length

variable {i : Interval} {s front text : List Char}

theorem Shows.chars_eq (h : i.Shows s front text) : i.chars s = text := by
  obtain ⟨back, hs⟩ := h.exists_eq
  rw [chars, h.start_eq, h.stop_eq, hs, ← List.length_append, List.take_left, List.drop_left]

theorem Shows.stop_le (h : i.Shows s front text) : i.stop ≤ s.length := by
  obtain ⟨back, hs⟩ := h.exists_eq
  rw [h.stop_eq, hs, List.length_append, List.length_append]
  exact Nat.le_add_right _ _

theorem Shows.start_lt_stop (h : i.Shows s front text) (htext : text ≠ []) : i.start < i.stop := by
  rw [h.start_eq, h.stop_eq]
  exact Nat.lt_add_of_pos_right (List.length_pos_iff.2 htext)

end Interval

/-! ## The walk -/

/-- A rule whose matches come from some search engine. -/
structure ByteRule where
  /-- The matches in a line, each with the bytes between which its groups stand. Group 0 is the whole
  match. -/
  find : List Char → List (Nat → Option (Nat × Nat))
  style : Nat
  group : Option Nat

/-- A part of a line that a rule styles, by bytes. -/
structure Hit where
  start : Nat
  stop : Nat
  style : Nat

namespace Hit

def isEmpty (h : Hit) : Bool :=
  h.stop ≤ h.start

/-- The interval for a part of a line that starts at the character `start`; there is none for an
empty part, and none for one that goes on behind the line. -/
def interval? (start : Nat) (line : List Char) (h : Hit) : Option (List Interval) :=
  if h.isEmpty ∨ byteSize line < h.stop then some []
  else
    (slice? line 0 h.start).bind fun before =>
      (slice? line 0 h.stop).map fun through =>
        [⟨start + before.length, start + through.length, h.style⟩]

end Hit

namespace ByteRule

def hits (rule : ByteRule) (line : List Char) : List Hit :=
  ((rule.find line).filterMap fun found => found (rule.group.getD 0)).map fun (start, stop) =>
    ⟨start, stop, rule.style⟩

/-- Whether what a rule finds in a line are parts of the line. An empty part may stand anywhere. -/
def InLines (rule : ByteRule) : Prop :=
  ∀ line, '\n' ∉ line → ∀ h ∈ rule.hits line, h.start < h.stop →
    ∃ text, slice? line h.start h.stop = some text

end ByteRule

/-- Lists one after another, unless one of them is missing. -/
def concat? {α : Type} : List (Option (List α)) → Option (List α)
  | [] => some []
  | xs? :: rest => xs?.bind fun xs => (concat? rest).map (xs ++ ·)

/-- The intervals that the rules put on lines, the first of which starts at the character `start`.
-/
def overlays? (rules : List ByteRule) (start : Nat) : List (List Char) → Option (List Interval)
  | [] => some []
  | line :: rest =>
    (concat? ((rules.flatMap (·.hits line)).map (·.interval? start line))).bind fun here =>
      (overlays? rules (start + line.length + 1) rest).map (here ++ ·)

/-- The style intervals of a script, found by byte offsets. -/
def highlight? (lang : Language) (sheet : StyleSheet) (rules : List ByteRule)
    (script : List Char) : Option (List Interval) :=
  (ByteLexer.tokenize? lang script).bind fun tokens =>
    (if rules.isEmpty then some [] else overlays? rules 0 (splitLines script)).map fun styles =>
      Highlighter.lexemeIntervals sheet 0 (tokens.map (·.toLexeme)) ++ styles

/-! ## Tokens -/

def StyleSheet.styles (sheet : StyleSheet) (kind : TokenKind) : Bool :=
  (sheet.style? kind).isSome

/-- An interval on the characters of a token of a text, in the style of its kind. -/
def Token.Shown (sheet : StyleSheet) (s : List Char) (t : Token) (i : Interval) : Prop :=
  sheet.style? t.kind = some i.style ∧
    ∃ front, t.start = byteSize front ∧ i.Shows s front t.text

namespace Highlighter

variable {sheet : StyleSheet} {s : List Char}

/-- The count along the tokens: behind as many characters as there are, the intervals of some lexemes
are on the tokens that stand behind as many bytes. -/
theorem forall₂_lexemeIntervals {front back : List Char} {ls : List Lexeme}
    (h : s = front ++ Lexer.flatten ls ++ back) :
    List.Forall₂ (Token.Shown sheet s)
      ((Token.place (byteSize front) ls).filter fun t => sheet.styles t.kind)
      (lexemeIntervals sheet front.length ls) := by
  induction ls generalizing front with
  | nil => exact .nil
  | cons l ls ih =>
      rw [Lexer.flatten_cons] at h
      -- both counts move on by the text of the lexeme, styled or not
      have hrest := @ih (front ++ l.text) (by simpa using h)
      rw [byteSize_append, List.length_append] at hrest
      rw [Token.place, lexemeIntervals]
      cases hstyle : sheet.style? l.kind with
      | none =>
          rw [List.filter_cons_of_neg (by simp [StyleSheet.styles, hstyle])]
          exact hrest
      | some style =>
          rw [List.filter_cons_of_pos (by simp [StyleSheet.styles, hstyle])]
          refine .cons ⟨hstyle, front, rfl, ⟨Lexer.flatten ls ++ back, ?_⟩, rfl, rfl⟩ hrest
          rw [h]
          simp

theorem le_of_mem_lexemeIntervals {start : Nat} {ls : List Lexeme} {i : Interval}
    (h : i ∈ lexemeIntervals sheet start ls) : start ≤ i.start := by
  induction ls generalizing start with
  | nil => cases h
  | cons l ls ih =>
      have hrest : i ∈ lexemeIntervals sheet (start + l.text.length) ls → start ≤ i.start :=
        fun hi => Nat.le_trans (Nat.le_add_right _ _) (ih hi)
      rw [lexemeIntervals] at h
      split at h
      · rcases List.mem_cons.1 h with rfl | h
        · exact Nat.le_refl _
        · exact hrest h
      · exact hrest h

/-- The intervals of lexemes follow one another. -/
theorem pairwise_lexemeIntervals (start : Nat) (ls : List Lexeme) :
    (lexemeIntervals sheet start ls).Pairwise fun a b => a.stop ≤ b.start := by
  induction ls generalizing start with
  | nil => exact .nil
  | cons l ls ih =>
      rw [lexemeIntervals]
      split
      · exact List.pairwise_cons.2 ⟨fun i hi => le_of_mem_lexemeIntervals hi, ih _⟩
      · exact ih _

end Highlighter

/-! ## Matches -/

/-- Parts that are all there are put together. -/
theorem concat?_map_some {α β : Type} {f : α → Option (List β)} {g : α → List β} {xs : List α}
    (h : ∀ x ∈ xs, f x = some (g x)) : concat? (xs.map f) = some (xs.flatMap g) := by
  induction xs with
  | nil => rfl
  | cons x xs ih =>
      rw [List.forall_mem_cons] at h
      rw [List.map_cons, concat?, h.1, Option.bind_some, ih h.2]
      rfl

namespace Hit

/-- An interval on the characters of a part of a line, which is not empty, in the style of the rule.
-/
def Shown (s : List Char) (index : Nat) (h : Hit) (i : Interval) : Prop :=
  i.style = h.style ∧ ∃ front before text after back,
    splitLines s = front ++ (before ++ text ++ after) :: back ∧ front.length = index ∧
    h.start = byteSize before ∧ h.stop = byteSize (before ++ text) ∧ text ≠ [] ∧
    i.Shows s (closedLines front ++ before) text

variable {s line : List Char} {front back : List (List Char)} {h : Hit}

theorem interval?_of_isEmpty (start : Nat) (hempty : h.isEmpty = true) :
    h.interval? start line = some [] :=
  if_pos (Or.inl hempty)

/-- No cut fails at the ends of a part of a line, and the characters up to them are counted. -/
theorem interval?_eq {before text after : List Char} (start : Nat) (hempty : h.isEmpty = false)
    (hline : line = before ++ text ++ after) (hstart : h.start = byteSize before)
    (hstop : h.stop = byteSize (before ++ text)) :
    h.interval? start line =
      some [⟨start + before.length, start + (before ++ text).length, h.style⟩] := by
  have hwithin : ¬ byteSize line < h.stop := by
    rw [hline, hstop, byteSize_append (before ++ text)]
    exact Nat.not_lt.2 (Nat.le_add_right _ _)
  have hbefore : slice? line 0 h.start = some before := by
    rw [hline, hstart, List.append_assoc]
    exact slice?_append before (text ++ after)
  have hthrough : slice? line 0 h.stop = some (before ++ text) := by
    rw [hline, hstop]
    exact slice?_append (before ++ text) after
  rw [interval?, hempty, if_neg (not_or.2 ⟨Bool.false_ne_true, hwithin⟩), hbefore, hthrough]
  rfl

theorem exists_interval? (hs : splitLines s = front ++ line :: back) (hempty : h.isEmpty = false)
    {text : List Char} (htext : slice? line h.start h.stop = some text) :
    ∃ i, h.interval? (lineOffset front) line = some [i] ∧ h.Shown s front.length i := by
  obtain ⟨before, after, rfl, hstart, hstop⟩ := exists_of_slice? htext
  have hne : text ≠ [] := by
    rintro rfl
    simp [isEmpty, hstart, hstop] at hempty
  refine ⟨_, interval?_eq _ hempty rfl hstart hstop, rfl, front, before, text, after, back, hs, rfl,
    hstart, hstop, hne, ⟨after ++ tailText back, ?_⟩, ?_, ?_⟩
  · rw [eq_around_line hs]
    simp
  · exact List.length_append.symm
  · show lineOffset front + (before ++ text).length = _
    rw [List.length_append, List.length_append, lineOffset, Nat.add_assoc]

theorem Shown.start_lt_stop {index : Nat} {i : Interval} (hshown : h.Shown s index i) :
    i.start < i.stop := by
  obtain ⟨-, front, before, text, after, back, -, -, -, -, hne, hshows⟩ := hshown
  exact hshows.start_lt_stop hne

theorem Shown.inLine {index : Nat} {i : Interval} (hshown : h.Shown s index i) : i.InLine s := by
  obtain ⟨-, front, before, text, after, back, hs, -, -, -, -, hshows⟩ := hshown
  have hstart := hshows.start_eq
  have hstop := hshows.stop_eq
  rw [List.length_append] at hstart hstop
  refine ⟨front, before ++ text ++ after, back, hs, ?_, ?_⟩
  · rw [hstart, lineOffset]
    exact Nat.le_add_right _ _
  · rw [hstop, lineOffset, List.length_append, List.length_append]
    omega

end Hit

/-- The parts of a text that some rules style, each with the index of its line: line by line, in a
line rule by rule, and match by match. -/
def hitsFrom (rules : List ByteRule) (index : Nat) (lines : List (List Char)) : List (Nat × Hit) :=
  (lines.zipIdx index).flatMap fun (line, index) =>
    ((rules.flatMap (·.hits line)).filter fun h => !h.isEmpty).map (index, ·)

section

variable {s line : List Char} {front back : List (List Char)}

/-- The matches in one line: no cut fails, and every part that is not empty has its interval. -/
theorem exists_concat? (hs : splitLines s = front ++ line :: back) {hits : List Hit}
    (hin : ∀ h ∈ hits, h.start < h.stop → ∃ text, slice? line h.start h.stop = some text) :
    ∃ here, concat? (hits.map (·.interval? (lineOffset front) line)) = some here ∧
      List.Forall₂ (Hit.Shown s front.length) (hits.filter fun h => !h.isEmpty) here := by
  induction hits with
  | nil => exact ⟨[], rfl, .nil⟩
  | cons h hits ih =>
      rw [List.forall_mem_cons] at hin
      obtain ⟨later, hlater, hrest⟩ := ih hin.2
      rw [List.map_cons, concat?, hlater]
      cases hempty : h.isEmpty with
      | true =>
          rw [List.filter_cons_of_neg (by simp [hempty]), Hit.interval?_of_isEmpty _ hempty]
          exact ⟨later, rfl, hrest⟩
      | false =>
          obtain ⟨text, htext⟩ := hin.1 (by simpa [Hit.isEmpty] using hempty)
          obtain ⟨i, hi, hshown⟩ := Hit.exists_interval? hs hempty htext
          rw [List.filter_cons_of_pos (by simp [hempty]), hi]
          exact ⟨i :: later, rfl, .cons hshown hrest⟩

/-- The count along the lines: behind some lines, the walk over the ones that follow does not fail,
and its intervals are on the parts that the rules style. -/
theorem exists_overlays? {rules : List ByteRule} (hrules : ∀ rule ∈ rules, rule.InLines)
    {lines : List (List Char)} (hs : splitLines s = front ++ lines) :
    ∃ styles, overlays? rules (lineOffset front) lines = some styles ∧
      List.Forall₂ (fun p i => p.2.Shown s p.1 i) (hitsFrom rules front.length lines) styles := by
  induction lines generalizing front with
  | nil => exact ⟨[], rfl, .nil⟩
  | cons line rest ih =>
      have hin : ∀ h ∈ rules.flatMap (·.hits line), h.start < h.stop →
          ∃ text, slice? line h.start h.stop = some text := by
        intro h hmem
        obtain ⟨rule, hrule, hmem⟩ := List.mem_flatMap.1 hmem
        exact hrules rule hrule line (not_mem_of_splitLines_eq_append hs) h hmem
      obtain ⟨here, hhere, hshown⟩ := exists_concat? hs hin
      -- the count moves on by the line and its line feed, whatever was found in the line
      obtain ⟨later, hlater, hrest⟩ := @ih (front ++ [line]) (by rw [hs]; simp)
      have hoffset : lineOffset (front ++ [line]) = lineOffset front + line.length + 1 := by
        simp [lineOffset, closedLines, Nat.add_assoc]
      rw [hoffset] at hlater
      rw [List.length_append, List.length_singleton] at hrest
      refine ⟨here ++ later, ?_, ?_⟩
      · rw [overlays?, hhere, Option.bind_some, hlater]
        rfl
      · rw [hitsFrom, List.zipIdx_cons, List.flatMap_cons]
        refine List.rel_append ?_ hrest
        exact List.forall₂_map_left_iff.2 hshown

/-- Where an engine cuts a character, the walk fails. -/
example : overlays? [⟨fun _ => [fun _ => some (0, 1)], 7, none⟩] 0 ["步".toList] = none := by
  decide

end

/-! ## The engine of this library -/

namespace StyleRule

variable {line : List Char}

def byteRange (line : List Char) (range : Nat × Nat) : Nat × Nat :=
  (byteSize (line.take range.1), byteSize (line.take range.2))

/-- A rule whose matches come from the search of this library. -/
def toByteRule (rule : StyleRule) : ByteRule where
  find line := (rule.matcher.matches line).map fun slots n =>
    (Pattern.groupRange? n slots).map (byteRange line)
  style := rule.style
  group := rule.group

theorem hits_toByteRule (rule : StyleRule) (line : List Char) :
    rule.toByteRule.hits line = (Highlighter.ruleRanges rule line).map fun range =>
      ⟨(byteRange line range).1, (byteRange line range).2, rule.style⟩ := by
  rw [ByteRule.hits, toByteRule, Highlighter.ruleRanges, List.filterMap_map, List.map_filterMap,
    List.map_filterMap]
  refine List.filterMap_congr fun slots _ => ?_
  rw [Function.comp_apply, Option.map_map]
  rfl

theorem le_of_mem_ruleRanges {rule : StyleRule} {range : Nat × Nat}
    (h : range ∈ Highlighter.ruleRanges rule line) :
    range.1 ≤ line.length ∧ range.2 ≤ line.length := by
  obtain ⟨slots, hslots, hrange⟩ := List.mem_filterMap.1 h
  exact Pattern.Matcher.le_of_mem_matches hslots hrange

theorem take_append_drop_take {a b : Nat} (h : a ≤ b) :
    line.take a ++ (line.take b).drop a = line.take b := by
  have htake : (line.take b).take a = line.take a := by rw [List.take_take, Nat.min_eq_left h]
  rw [← htake, List.take_append_drop]

/-- A text around a range of its characters. -/
theorem eq_around_range {a b : Nat} (h : a ≤ b) :
    line = line.take a ++ (line.take b).drop a ++ line.drop b := by
  rw [take_append_drop_take h, List.take_append_drop]

/-- A range of characters is empty if and only if there are no bytes between its ends. -/
theorem byteSize_take_lt_iff {a b : Nat} (h : b ≤ line.length) :
    byteSize (line.take a) < byteSize (line.take b) ↔ a < b := by
  constructor
  · intro hbytes
    by_contra hab
    rw [← take_append_drop_take (Nat.le_of_not_lt hab), byteSize_append] at hbytes
    omega
  · intro hab
    have hne : (line.take b).drop a ≠ [] := by
      rw [← List.length_pos_iff, List.length_drop, List.length_take]
      omega
    rw [← take_append_drop_take (Nat.le_of_lt hab), byteSize_append]
    exact Nat.lt_add_of_pos_right (byteSize_pos hne)

theorem isEmpty_byteRange {range : Nat × Nat} (h : range.2 ≤ line.length) (style : Nat) :
    (Hit.mk (byteRange line range).1 (byteRange line range).2 style).isEmpty =
      !decide (range.1 < range.2) := by
  rw [Hit.isEmpty, ← decide_not, decide_eq_decide, ← Nat.not_lt]
  exact not_congr (byteSize_take_lt_iff h)

/-- What the search of this library finds are parts of lines. -/
theorem inLines_toByteRule (rule : StyleRule) : rule.toByteRule.InLines := by
  intro line _ h hmem hlt
  rw [hits_toByteRule] at hmem
  obtain ⟨range, hrange, rfl⟩ := List.mem_map.1 hmem
  have hab := Nat.le_of_lt ((byteSize_take_lt_iff (le_of_mem_ruleRanges hrange).2).1 hlt)
  have hslice := slice?_of_eq_append (@eq_around_range line _ _ hab)
  rw [take_append_drop_take hab] at hslice
  exact ⟨_, hslice⟩

/-- A range of characters, by bytes, has the interval of these characters. -/
theorem interval?_byteRange {range : Nat × Nat} (h : range.2 ≤ line.length) (style start : Nat) :
    (Hit.mk (byteRange line range).1 (byteRange line range).2 style).interval? start line =
      some (if range.1 < range.2 then [⟨start + range.1, start + range.2, style⟩] else []) := by
  have hempty := isEmpty_byteRange h style
  by_cases hab : range.1 < range.2
  · have htake := @take_append_drop_take line _ _ (Nat.le_of_lt hab)
    have hline := @eq_around_range line _ _ (Nat.le_of_lt hab)
    rw [Hit.interval?_eq start (by simpa [hab] using hempty) hline rfl (by rw [htake]; rfl), htake,
      List.length_take, List.length_take, Nat.min_eq_left h, if_pos hab,
      Nat.min_eq_left (Nat.le_trans (Nat.le_of_lt hab) h)]
  · rw [Hit.interval?_of_isEmpty start (by simpa [hab] using hempty), if_neg hab]

end StyleRule

section

variable (rules : List StyleRule) (line : List Char) (start : Nat)

/-- What rules style in a line, rule by rule. -/
theorem hits_toByteRules :
    (rules.map StyleRule.toByteRule).flatMap (·.hits line) =
      (rules.flatMap fun rule => (Highlighter.ruleRanges rule line).map (rule, ·)).map fun p =>
        ⟨(StyleRule.byteRange line p.2).1, (StyleRule.byteRange line p.2).2, p.1.style⟩ := by
  rw [List.flatMap_map, List.map_flatMap]
  refine List.flatMap_congr fun rule _ => ?_
  rw [StyleRule.hits_toByteRule, List.map_map]
  rfl

theorem ruleIntervals_eq (rule : StyleRule) :
    Highlighter.ruleIntervals rule start line =
      (Highlighter.ruleRanges rule line).flatMap fun range =>
        if range.1 < range.2 then [⟨start + range.1, start + range.2, rule.style⟩] else [] := by
  rw [Highlighter.ruleIntervals]
  induction Highlighter.ruleRanges rule line with
  | nil => rfl
  | cons range ranges ih =>
      rw [List.flatMap_cons, ← ih]
      by_cases h : range.1 < range.2
      · rw [List.filter_cons_of_pos (by simpa using h), if_pos h]
        rfl
      · rw [List.filter_cons_of_neg (by simpa using h), if_neg h]
        rfl

theorem concat?_toByteRules :
    concat? (((rules.map StyleRule.toByteRule).flatMap (·.hits line)).map
        (·.interval? start line)) =
      some (rules.flatMap fun rule => Highlighter.ruleIntervals rule start line) := by
  rw [hits_toByteRules, List.map_map, concat?_map_some (g := fun p : StyleRule × (Nat × Nat) =>
    if p.2.1 < p.2.2 then [⟨start + p.2.1, start + p.2.2, p.1.style⟩] else [])]
  · rw [List.flatMap_assoc]
    refine congrArg some (List.flatMap_congr fun rule _ => ?_)
    rw [ruleIntervals_eq, List.flatMap_map]
  · intro p hp
    obtain ⟨rule, -, hp⟩ := List.mem_flatMap.1 hp
    obtain ⟨range, hrange, rfl⟩ := List.mem_map.1 hp
    exact StyleRule.interval?_byteRange (StyleRule.le_of_mem_ruleRanges hrange).2 rule.style start

theorem overlays?_toByteRules (lines : List (List Char)) :
    overlays? (rules.map StyleRule.toByteRule) start lines =
      some (Highlighter.lineIntervals rules start lines) := by
  induction lines generalizing start with
  | nil => rfl
  | cons line rest ih =>
      rw [overlays?, concat?_toByteRules, Option.bind_some, ih]
      rfl

end

/-! ## All styles -/

theorem overlays?_nil (start : Nat) (lines : List (List Char)) :
    overlays? [] start lines = some [] := by
  induction lines generalizing start with
  | nil => rfl
  | cons line rest ih =>
      rw [overlays?, ih]
      rfl

/-- The lexer does not fail, so that a walk fails only where one over the matches does. -/
theorem highlight?_eq (lang : Language) (sheet : StyleSheet) (rules : List ByteRule)
    (s : List Char) :
    highlight? lang sheet rules s = (overlays? rules 0 (splitLines s)).map fun styles =>
      Highlighter.lexemeIntervals sheet 0 (Lexer.lexText lang s) ++ styles := by
  have hoverlays : (if rules.isEmpty then some [] else overlays? rules 0 (splitLines s)) =
      overlays? rules 0 (splitLines s) := by
    cases rules with
    | nil => exact (overlays?_nil 0 _).symm
    | cons rule rules => rfl
  rw [highlight?, ByteLexer.tokenize?_eq, Option.bind_some, hoverlays, Token.ofText,
    Token.texts_place]

namespace Highlighter

/-- With the search of this library, the walk by byte offsets is the highlighter. -/
theorem highlight?_toByteRules (h : Highlighter) (s : List Char) :
    highlight? h.language h.sheet (h.rules.map StyleRule.toByteRule) s = some (h.highlight s) := by
  rw [highlight?_eq, overlays?_toByteRules]
  rfl

/-- What is promised of the styles of the tokens of a text. -/
structure SoundTokenStyles (lang : Language) (sheet : StyleSheet) (s : List Char)
    (styles : List Interval) : Prop where
  /-- One by one, they are on the tokens that have a style, and in the style of their kind. -/
  shown : List.Forall₂ (Token.Shown sheet s)
    ((Token.ofText lang s).filter fun t => sheet.styles t.kind) styles
  nonempty : ∀ i ∈ styles, i.start < i.stop
  increasing : styles.Pairwise fun a b => a.start < b.start
  disjoint : styles.Pairwise fun a b => a.stop ≤ b.start
  within : ∀ i ∈ styles, i.stop ≤ s.length
  no_line_feed : ∀ i ∈ styles, '\n' ∉ i.chars s

/-- What is promised of the styles of the matches in a text. -/
structure SoundMatchStyles (rules : List ByteRule) (s : List Char) (styles : List Interval) :
    Prop where
  /-- One by one, they are on the matches that are not empty, and in the style of their rule. -/
  shown : List.Forall₂ (fun p i => p.2.Shown s p.1 i) (hitsFrom rules 0 (splitLines s)) styles
  nonempty : ∀ i ∈ styles, i.start < i.stop
  in_line : ∀ i ∈ styles, i.InLine s

/-- What follows from being related to something holds of everything related. -/
theorem forall_mem_of_forall₂ {α β : Type} {R : α → β → Prop} {p : β → Prop} {xs : List α}
    {ys : List β} (h : List.Forall₂ R xs ys) (hp : ∀ x ∈ xs, ∀ y, R x y → p y) : ∀ y ∈ ys, p y := by
  induction h with
  | nil => exact fun _ hy => absurd hy List.not_mem_nil
  | cons hxy _ ih =>
      rw [List.forall_mem_cons] at hp ⊢
      exact ⟨hp.1 _ hxy, ih hp.2⟩

/-- A token that is styled has characters, and no line feed among them. -/
theorem text_of_mem_styled {lang : Language} (hsteps : lang.stepsKeyword ≠ []) {sheet : StyleSheet}
    {s : List Char} {t : Token}
    (ht : t ∈ (Token.ofText lang s).filter fun t => sheet.styles t.kind) :
    t.text ≠ [] ∧ '\n' ∉ t.text := by
  obtain ⟨hmem, hstyled⟩ := List.mem_filter.1 ht
  have hall : ∀ l ∈ Lexer.lexText lang s,
      sheet.styles l.kind = true → l.text ≠ [] ∧ '\n' ∉ l.text := by
    refine Lexer.forall_mem_lexText s (fun hnewline => ?_) fun line hline l hl _ => ?_
    · cases hnewline
    · exact ⟨Lexer.text_ne_nil_of_mem_lexLine hsteps hl,
        Lexer.not_mem_text_of_mem_lexLine hl (not_mem_of_mem_splitLines hline)⟩
  exact hall t.toLexeme (Token.toLexeme_mem hmem) hstyled

theorem soundTokenStyles {lang : Language} (hsteps : lang.stepsKeyword ≠ []) (sheet : StyleSheet)
    (s : List Char) :
    SoundTokenStyles lang sheet s (lexemeIntervals sheet 0 (Lexer.lexText lang s)) := by
  have hshown : List.Forall₂ (Token.Shown sheet s)
      ((Token.ofText lang s).filter fun t => sheet.styles t.kind)
      (lexemeIntervals sheet 0 (Lexer.lexText lang s)) :=
    @forall₂_lexemeIntervals sheet s [] [] _ (by simp [Lexer.flatten_lexText])
  have hdisjoint := @pairwise_lexemeIntervals sheet 0 (Lexer.lexText lang s)
  have hnonempty : ∀ i ∈ lexemeIntervals sheet 0 (Lexer.lexText lang s), i.start < i.stop :=
    forall_mem_of_forall₂ hshown fun t ht i ⟨_, _, _, hshows⟩ =>
      hshows.start_lt_stop (text_of_mem_styled hsteps ht).1
  exact
    { shown := hshown
      nonempty := hnonempty
      increasing := hdisjoint.imp_of_mem fun ha _ hab => Nat.lt_of_lt_of_le (hnonempty _ ha) hab
      disjoint := hdisjoint
      within := forall_mem_of_forall₂ hshown fun t _ i ⟨_, _, _, hshows⟩ => hshows.stop_le
      no_line_feed := forall_mem_of_forall₂ hshown fun t ht i ⟨_, _, _, hshows⟩ =>
        hshows.chars_eq ▸ (text_of_mem_styled hsteps ht).2 }

theorem exists_soundMatchStyles {rules : List ByteRule} (hrules : ∀ rule ∈ rules, rule.InLines)
    (s : List Char) :
    ∃ styles, overlays? rules 0 (splitLines s) = some styles ∧ SoundMatchStyles rules s styles := by
  obtain ⟨styles, hstyles, hshown⟩ := @exists_overlays? s [] _ hrules _ rfl
  exact ⟨styles, hstyles, hshown, forall_mem_of_forall₂ hshown fun _ _ _ h => h.start_lt_stop,
    forall_mem_of_forall₂ hshown fun _ _ _ h => h.inLine⟩

/-- **Sound styles.** In a language with a steps keyword, with any search engine that finds parts of
lines, the walk by byte offsets does not fail. First come the styles of the tokens, then those of the
matches, each on exactly the characters it is for. The highlighter of this library is the walk with
its own search engine, which finds nothing else. -/
theorem soundStyles (lang : Language) (hsteps : lang.stepsKeyword ≠ []) (sheet : StyleSheet)
    (rules : List ByteRule) (hrules : ∀ rule ∈ rules, rule.InLines) (s : List Char) :
    (∃ tokenStyles matchStyles,
      highlight? lang sheet rules s = some (tokenStyles ++ matchStyles) ∧
      SoundTokenStyles lang sheet s tokenStyles ∧ SoundMatchStyles rules s matchStyles) ∧
    ∀ own : List StyleRule,
      (∀ rule ∈ own.map StyleRule.toByteRule, rule.InLines) ∧
      highlight? lang sheet (own.map StyleRule.toByteRule) s =
        some (Highlighter.highlight ⟨lang, sheet, own⟩ s) := by
  refine ⟨?_, fun own => ⟨?_, highlight?_toByteRules ⟨lang, sheet, own⟩ s⟩⟩
  · obtain ⟨styles, hstyles, hsound⟩ := exists_soundMatchStyles hrules s
    refine ⟨_, styles, ?_, soundTokenStyles hsteps sheet s, hsound⟩
    rw [highlight?_eq, hstyles]
    rfl
  · intro rule hrule
    obtain ⟨rule, -, rfl⟩ := List.mem_map.1 hrule
    exact rule.inLines_toByteRule

/-- A rule for the two characters behind an opening bracket. -/
def bracketRules : List StyleRule :=
  (StyleRule.ofText? ⟨"\\[(..)".toList, 7, some 1⟩).toList

/-- Behind characters of three bytes, the two characters behind a bracket are found by bytes and
styled by characters. -/
theorem soundStyles_bracketRules :
    Language.standard.stepsKeyword ≠ [] ∧
    (∀ rule ∈ bracketRules.map StyleRule.toByteRule, rule.InLines) ∧
    ∃ tokenStyles matchStyles,
      tokenStyles ++ matchStyles =
        [⟨0, 2, 0x05000002⟩, ⟨4, 6, 0x05000003⟩, ⟨7, 8, 0x0500000c⟩, ⟨10, 11, 0x0500000c⟩,
          ⟨8, 10, 7⟩] ∧
      SoundTokenStyles .standard .standard "步骤:\n点击 [图标]".toList tokenStyles ∧
      SoundMatchStyles (bracketRules.map StyleRule.toByteRule) "步骤:\n点击 [图标]".toList
        matchStyles := by
  have hsteps : Language.standard.stepsKeyword ≠ [] := by decide
  have hrules : ∀ rule ∈ bracketRules.map StyleRule.toByteRule, rule.InLines := by
    intro rule hrule
    obtain ⟨rule, -, rfl⟩ := List.mem_map.1 hrule
    exact rule.inLines_toByteRule
  obtain ⟨⟨tokenStyles, matchStyles, hwalk, htokens, hmatches⟩, hown⟩ :=
    soundStyles .standard hsteps .standard (bracketRules.map StyleRule.toByteRule) hrules
      "步骤:\n点击 [图标]".toList
  refine ⟨hsteps, hrules, tokenStyles, matchStyles, ?_, htokens, hmatches⟩
  have hall : Highlighter.highlight ⟨.standard, .standard, bracketRules⟩
      "步骤:\n点击 [图标]".toList =
        [⟨0, 2, 0x05000002⟩, ⟨4, 6, 0x05000003⟩, ⟨7, 8, 0x0500000c⟩, ⟨10, 11, 0x0500000c⟩,
          ⟨8, 10, 7⟩] := by
    decide +kernel
  exact (Option.some.inj (hwalk.symm.trans (hown bracketRules).2)).trans hall

end Highlighter

end StepScript
