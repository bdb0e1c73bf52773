import Mathlib.Data.List.TakeWhile
import StepScript.Proofs.LineEdits
import StepScript.Proofs.Trim
import StepScript.Script.Header

/-!
# The details of a header

Below their label, the details are lines with a key, a colon and a value. The colon may be plain or
full-width; but a line is cut at its first plain colon if it has one anywhere. So a full-width colon
ends the key only as long as the value has no plain one, as an address or a time has.

Main statements:

* `Header.lookup_putAll` — of several values for one key, the last one is kept;
* `DetailLine.next_text` — what one line adds to the details;
* `Script.detailsRead` — the details are the pairs that the lines are cut into, and these are the
  pairs that were written exactly if no value with a plain colon follows a full-width one.
-/

set_option autoImplicit false

namespace StepScript

open Text

/-! ## Pairs -/

namespace Header

variable {ps qs : List (List Char × List Char)} {key value : List Char}

theorem lookup_cons_eq (k k' v : List Char) (ps : List (List Char × List Char)) :
    ((k', v) :: ps).lookup k = if k = k' then some v else ps.lookup k := by
  rw [List.lookup_cons]
  by_cases hk : k = k'
  · simp [hk]
  · simp [hk, beq_false_of_ne hk]

theorem lookup_put (key value : List Char) (ps : List (List Char × List Char)) (k : List Char) :
    (put key value ps).lookup k = if k = key then some value else ps.lookup k := by
  induction ps with
  | nil => exact lookup_cons_eq k key value []
  | cons p ps ih =>
      obtain ⟨k', v'⟩ := p
      rw [put]
      split
      · next heq =>
        rw [lookup_cons_eq, lookup_cons_eq, heq]
        split <;> rfl
      · next hne =>
        rw [lookup_cons_eq, ih, lookup_cons_eq]
        by_cases hk : k = k'
        · rw [if_pos hk, if_neg (fun heq => hne (hk ▸ heq)), if_pos hk]
        · rw [if_neg hk, if_neg hk]

theorem mem_keys_put (key value : List Char) (ps : List (List Char × List Char)) (k : List Char) :
    k ∈ (put key value ps).map Prod.fst ↔ k = key ∨ k ∈ ps.map Prod.fst := by
  induction ps with
  | nil => simp [put]
  | cons p ps ih =>
      obtain ⟨k', v'⟩ := p
      rw [put]
      split
      · next heq => simp [heq]
      · rw [List.map_cons, List.mem_cons, ih, List.map_cons, List.mem_cons]
        exact or_left_comm

/-- A key that is put twice is there once. -/
theorem nodup_put (h : (ps.map Prod.fst).Nodup) (key value : List Char) :
    ((put key value ps).map Prod.fst).Nodup := by
  induction ps with
  | nil => simp [put]
  | cons p ps ih =>
      obtain ⟨k', v'⟩ := p
      rw [List.map_cons, List.nodup_cons] at h
      rw [put]
      split
      · simpa using h
      · next hne =>
        rw [List.map_cons, List.nodup_cons, mem_keys_put]
        exact ⟨not_or.2 ⟨hne, h.1⟩, ih h.2⟩

def putAll (ps qs : List (List Char × List Char)) : List (List Char × List Char) :=
  qs.foldl (fun acc p => put p.1 p.2 acc) ps

theorem nodup_putAll (h : (ps.map Prod.fst).Nodup) (qs : List (List Char × List Char)) :
    ((putAll ps qs).map Prod.fst).Nodup := by
  induction qs generalizing ps with
  | nil => exact h
  | cons q qs ih => exact ih (nodup_put h q.1 q.2)

/-- Of several values for one key, the last one is kept. -/
theorem lookup_putAll (ps qs : List (List Char × List Char)) (k : List Char) :
    (putAll ps qs).lookup k = (qs.reverse.lookup k).or (ps.lookup k) := by
  induction qs generalizing ps with
  | nil => rfl
  | cons q qs ih =>
      have hput := ih (put q.1 q.2 ps)
      rw [lookup_put] at hput
      rw [List.reverse_cons, List.lookup_append, Option.or_assoc, List.lookup_singleton]
      refine hput.trans ?_
      congr 1
      by_cases hk : k = q.1 <;> simp [hk]

end Header

/-! ## Colons -/

/-- The colon behind a key, in one of its two forms. -/
inductive Colon where
  | plain | wide
deriving DecidableEq

def Colon.char : Colon → Char
  | plain => ':'
  | wide => '：'

def isColon (c : Char) : Bool :=
  c == ':' || c == '：'

/-- A text without colons, as it can be computed. -/
theorem any_isColon_eq_false {s : List Char} :
    s.any isColon = false ↔ ∀ c ∈ s, isColon c = false := by
  simp [List.any_eq_false]

theorem isColon_char (colon : Colon) : isColon colon.char = true := by
  cases colon <;> rfl

theorem not_isBlank_char (colon : Colon) : isBlank colon.char = false := by
  cases colon <;> decide

theorem not_isColon_of_isBlank {c : Char} (h : isBlank c = true) : isColon c = false := by
  by_contra hcolon
  rw [Bool.not_eq_false, isColon, Bool.or_eq_true, beq_iff_eq, beq_iff_eq] at hcolon
  rcases hcolon with rfl | rfl <;> exact absurd h (by decide)

/-- A text has one first colon. -/
theorem eq_of_append_colon {a b s t : List Char} {c d : Char} (h : a ++ c :: s = b ++ d :: t)
    (ha : ∀ x ∈ a, isColon x = false) (hb : ∀ x ∈ b, isColon x = false) (hc : isColon c = true)
    (hd : isColon d = true) : a = b := by
  have hcut : ∀ {u v : List Char} {x : Char}, (∀ y ∈ u, isColon y = false) → isColon x = true →
      (u ++ x :: v).takeWhile (fun y => !isColon y) = u := by
    intro u v x hu hx
    rw [List.takeWhile_append_of_pos (fun y hy => by simp [hu y hy]),
      List.takeWhile_cons_of_neg (by simp [hx]), List.append_nil]
  rw [← hcut ha hc, h, hcut hb hd]

/-! ## Cuts and blanks -/

/-- What stands in front of the first occurrence of a character moves it no further. -/
theorem cutAt_append {c : Char} {s : List Char} (h : c ∉ s) (t : List Char) :
    cutAt c (s ++ t) = (cutAt c t).map fun p => (s ++ p.1, p.2) := by
  induction s with
  | nil => simp
  | cons d s ih =>
      rw [List.mem_cons, not_or] at h
      rw [List.cons_append, cutAt, if_neg (Ne.symm h.1), ih h.2, Option.map_map]
      rfl

theorem trimEnd_cons_of_not_blank {c : Char} (h : isBlank c = false) (s : List Char) :
    trimEnd (c :: s) = c :: trimEnd s := by
  by_cases hs : trimEnd s = []
  · rw [trimEnd_cons_of_eq_nil hs, if_neg (by simp [h]), hs]
  · exact trimEnd_cons_of_ne_nil hs

/-- Blanks at the end of a text are no matter for a cut in it. -/
theorem cutAt_trimEnd {c : Char} (hc : isBlank c = false) (s : List Char) :
    cutAt c (trimEnd s) = (cutAt c s).map fun p => (p.1, trimEnd p.2) := by
  cases hcut : cutAt c s with
  | none =>
      rw [cutAt_eq_none] at hcut
      obtain ⟨b, -, hs⟩ := exists_trimEnd s
      exact cutAt_eq_none.2 fun hmem => hcut (by rw [hs]; exact List.mem_append_left b hmem)
  | some p =>
      obtain ⟨rfl, hnot⟩ := eq_of_cutAt hcut
      have hend := trimEnd_cons_of_not_blank hc p.2
      rw [trimEnd_append_of_ne_nil _ (by rw [hend]; simp), hend, cutAt_append hnot, cutAt,
        if_pos rfl]
      simp

theorem trim_trimStart_append (s t : List Char) : trim (trimStart s ++ t) = trim (s ++ t) := by
  have h := trim_blank_append_blank (trimStart s ++ t) (allBlank_indentation s) allBlank_nil
  rw [List.append_nil, ← List.append_assoc, indentation_append_trimStart] at h
  exact h.symm

theorem trim_trimEnd (s : List Char) : trim (trimEnd s) = trim s := by
  obtain ⟨b, hb, hs⟩ := exists_trimEnd s
  have h := trim_blank_append_blank (trimEnd s) allBlank_nil hb
  rw [List.nil_append, ← hs] at h
  exact h.symm

/-! ## Lines of the details -/

/-- A line of the details as it is written. -/
structure DetailLine where
  key : List Char
  colon : Colon
  value : List Char
deriving DecidableEq

namespace DetailLine

def text (d : DetailLine) : List Char :=
  d.key ++ d.colon.char :: d.value

def pair (d : DetailLine) : List Char × List Char :=
  (trim d.key, trim d.value)

/-- The pair that the line is cut into. A plain colon in the value takes the place of a full-width
one behind the key. -/
def cut (d : DetailLine) : List Char × List Char :=
  match d.colon, cutAt ':' d.value with
  | .wide, some (before, after) => (trim (d.key ++ '：' :: before), trim after)
  | _, _ => d.pair

/-- A line whose key is one: it has a character and no colon, opens no comment, and is none of the
words around the steps. -/
structure WellFormed (d : DetailLine) : Prop where
  one_line : '\n' ∉ d.key ∧ '\n' ∉ d.value
  key_ne_nil : trim d.key ≠ []
  key_colon : ∀ c ∈ trim d.key, isColon c = false
  key_comment : (trim d.key).head? ≠ some '#'
  key_word : trim d.key ∉ ["用例".toList, "脚本名".toList, "详情".toList, "步骤".toList]

instance (d : DetailLine) : Decidable d.WellFormed :=
  decidable_of_iff
    (('\n' ∉ d.key ∧ '\n' ∉ d.value) ∧ trim d.key ≠ [] ∧ (trim d.key).any isColon = false ∧
      (trim d.key).head? ≠ some '#' ∧
        trim d.key ∉ ["用例".toList, "脚本名".toList, "详情".toList, "步骤".toList])
    ⟨fun ⟨h₁, h₂, h₃, h₄, h₅⟩ => ⟨h₁, h₂, any_isColon_eq_false.1 h₃, h₄, h₅⟩, fun h =>
      ⟨h.one_line, h.key_ne_nil, any_isColon_eq_false.2 h.key_colon, h.key_comment, h.key_word⟩⟩

variable {d : DetailLine}

theorem newline_not_mem_text (h : d.WellFormed) : '\n' ∉ d.text := by
  have hcolon : '\n' ≠ d.colon.char := by
    cases d.colon <;> decide
  simp [text, h.one_line.1, h.one_line.2, hcolon]

/-- The key as it starts the trimmed line: without the blanks in front of it. -/
theorem trimStart_key (h : d.WellFormed) :
    trimStart d.key ≠ [] ∧ ∀ c ∈ trimStart d.key, isColon c = false := by
  obtain ⟨b, hb, hkey⟩ := exists_trimEnd (trimStart d.key)
  rw [← trim] at hkey
  constructor
  · intro hnil
    exact h.key_ne_nil (by rw [trim, hnil]; rfl)
  · intro c hc
    rw [hkey, List.mem_append] at hc
    rcases hc with hc | hc
    · exact h.key_colon c hc
    · exact not_isColon_of_isBlank (allBlank_iff.1 hb c hc)

theorem trim_text (h : d.WellFormed) :
    trim d.text = trimStart d.key ++ d.colon.char :: trimEnd d.value := by
  have hstart : trimStart d.text = trimStart d.key ++ d.colon.char :: d.value := by
    obtain ⟨c, s, hkey⟩ := List.exists_cons_of_ne_nil (trimStart_key h).1
    have htext : d.text = indentation d.key ++ (c :: (s ++ d.colon.char :: d.value)) := by
      rw [text, ← List.cons_append, ← hkey, ← List.append_assoc, indentation_append_trimStart]
    rw [htext, trimStart_append_of_allBlank _ (allBlank_indentation d.key),
      trimStart_cons_of_not_blank _ (not_isBlank_of_trimStart_eq_cons hkey), hkey, List.cons_append]
  have hend := trimEnd_cons_of_not_blank (not_isBlank_char d.colon) d.value
  rw [trim, hstart, trimEnd_append_of_ne_nil _ (by rw [hend]; simp), hend]

/-- A word that is followed by a colon on the line is the key. -/
theorem trim_key_eq_of_word (h : d.WellFormed) {word rest : List Char} {c : Char}
    {behind : List Char} (hword : ∀ x ∈ word, isColon x = false) (htrimmed : trimEnd word = word)
    (hline : trim d.text = word ++ rest) (hrest : trimStart rest = c :: behind)
    (hc : isColon c = true) : trim d.key = word := by
  have hcut : trimStart d.key ++ d.colon.char :: trimEnd d.value =
      (word ++ indentation rest) ++ c :: behind := by
    rw [← trim_text h, hline, List.append_assoc, ← hrest, indentation_append_trimStart]
  have hblank : ∀ x ∈ word ++ indentation rest, isColon x = false := by
    intro x hx
    rcases List.mem_append.1 hx with hx | hx
    · exact hword x hx
    · exact not_isColon_of_isBlank (allBlank_iff.1 (allBlank_indentation rest) x hx)
  rw [trim, eq_of_append_colon hcut (trimStart_key h).2 hblank (isColon_char _) hc,
    trimEnd_append_of_allBlank _ (allBlank_indentation rest), htrimmed]

/-- A line of the details has none of the labels. -/
theorem labelValue?_eq_none (h : d.WellFormed) {label : List Char}
    (hlabel : ∀ x ∈ label, isColon x = false) (htrimmed : trimEnd label = label)
    (hne : trim d.key ≠ label) : Header.labelValue? (trim d.text) label = none := by
  rw [Header.labelValue?]
  cases hafter : after? label (trim d.text) with
  | none => rfl
  | some rest =>
      have hline := after?_eq_some.1 hafter
      have hno : ∀ colon : Colon, after? [colon.char] (trimStart rest) = none := by
        intro colon
        rw [Option.eq_none_iff_forall_not_mem]
        intro behind hbehind
        exact hne (trim_key_eq_of_word h hlabel htrimmed hline (after?_eq_some.1 hbehind)
          (isColon_char colon))
      have hplain : after? [':'] (trimStart rest) = none := hno .plain
      have hwide : after? ['：'] (trimStart rest) = none := hno .wide
      rw [Option.bind_some, hplain, hwide]
      rfl

/-- A line of the details is no marker. -/
theorem isMarker_eq_false (h : d.WellFormed) :
    Language.standard.isMarker (trim d.text) = false := by
  rw [Language.isMarker]
  cases hafter : after? Language.standard.stepsKeyword (trim d.text) with
  | none => rfl
  | some rest =>
      rw [Option.any_some, beq_eq_false_iff_ne]
      intro hrest
      have hword : ∀ c ∈ Language.standard.stepsKeyword, isColon c = false :=
        any_isColon_eq_false.1 (by decide)
      have hkey := trim_key_eq_of_word h hword (by decide) (after?_eq_some.1 hafter) hrest rfl
      exact h.key_word (by rw [hkey]; decide)

/-- A line of the details is no comment, and not blank. -/
theorem not_comment (h : d.WellFormed) :
    (trim d.text).isEmpty = false ∧ Language.standard.isComment (trim d.text) = false := by
  obtain ⟨c, s, hkey⟩ := List.exists_cons_of_ne_nil (trimStart_key h).1
  have hhead : c ≠ '#' := by
    obtain ⟨b, hb, hsplit⟩ := exists_trimEnd (trimStart d.key)
    rw [← trim] at hsplit
    obtain ⟨c', s', htrim⟩ := List.exists_cons_of_ne_nil h.key_ne_nil
    have hcomment := h.key_comment
    rw [htrim] at hsplit hcomment
    rw [hkey, List.cons_append] at hsplit
    rw [(List.cons.inj hsplit).1]
    simpa using hcomment
  rw [trim_text h, hkey, List.cons_append]
  refine ⟨rfl, ?_⟩
  simp [Language.isComment, Language.standard, after?, Ne.symm hhead]

theorem not_mem_trimStart_key (h : d.WellFormed) (colon : Colon) :
    colon.char ∉ trimStart d.key := fun hmem => by
  have hcolon := (trimStart_key h).2 _ hmem
  rw [isColon_char] at hcolon
  cases hcolon

/-- The pair that a trimmed line is cut into. -/
theorem exists_cutPair? (h : d.WellFormed) :
    ∃ key value, Header.cutPair? (trim d.text) = some (key, value) ∧
      (trim key, trim value) = d.cut := by
  have hplain : ':' ∉ trimStart d.key := not_mem_trimStart_key h .plain
  have hwide : '：' ∉ trimStart d.key := not_mem_trimStart_key h .wide
  have hpair : (trim (trimStart d.key), trim (trimEnd d.value)) = d.pair := by
    rw [pair, trim_trimEnd, ← List.append_nil (trimStart d.key), trim_trimStart_append,
      List.append_nil]
  rw [Header.cutPair?, trim_text h, cutAt_append hplain, cutAt_append hwide]
  cases hcolon : d.colon with
  | plain =>
      refine ⟨trimStart d.key, trimEnd d.value, by simp [Colon.char, cutAt], ?_⟩
      rw [hpair, cut, hcolon]
  | wide =>
      cases hcut : cutAt ':' d.value with
      | none =>
          refine ⟨trimStart d.key, trimEnd d.value, ?_, by rw [hpair, cut, hcolon, hcut]⟩
          simp [Colon.char, cutAt, cutAt_trimEnd (c := ':') (by decide), hcut]
      | some p =>
          obtain ⟨before, after⟩ := p
          refine ⟨trimStart d.key ++ '：' :: before, trimEnd after, ?_, ?_⟩
          · simp [Colon.char, cutAt, cutAt_trimEnd (c := ':') (by decide), hcut]
          · rw [cut, hcolon, hcut, trim_trimEnd, trim_trimStart_append]

/-- **One line of the details adds the pair that it is cut into.** -/
theorem next_text (h : d.WellFormed) (header : Header) :
    (⟨header, true⟩ : Header.Reading).next .standard (trim d.text) =
      ⟨{ header with details := Header.put d.cut.1 d.cut.2 header.details }, true⟩ := by
  obtain ⟨hblank, hcomment⟩ := not_comment h
  obtain ⟨key, value, hcut, hpair⟩ := exists_cutPair? h
  have hword := h.key_word
  simp only [List.mem_cons, List.not_mem_nil, or_false, not_or] at hword
  obtain ⟨hcase, hname, hdetails, -⟩ := hword
  have hnone₁ : Header.labelValue? (trim d.text) Language.standard.caseLabel = none :=
    labelValue?_eq_none h (any_isColon_eq_false.1 (by decide)) (by decide) hcase
  have hnone₂ : Header.labelValue? (trim d.text) Language.standard.scriptNameLabel = none :=
    labelValue?_eq_none h (any_isColon_eq_false.1 (by decide)) (by decide) hname
  have hnone₃ : Header.labelValue? (trim d.text) Language.standard.detailsLabel = none :=
    labelValue?_eq_none h (any_isColon_eq_false.1 (by decide)) (by decide) hdetails
  rw [Header.Reading.next, hblank, hcomment, hnone₁, hnone₂, hnone₃]
  simp only [hcut, ← hpair]
  rfl

end DetailLine

/-! ## All lines of the details -/

namespace Script

open DetailLine

/-- A script with an opening line and lines of the details, and nothing else. -/
def detailsText (opening : List Char) (ds : List DetailLine) : List Char :=
  joinLines (opening :: ds.map DetailLine.text)

/-- A line that opens the details: their label and a colon, and whatever follows. -/
structure OpensDetails (opening : List Char) : Prop where
  one_line : '\n' ∉ opening
  label : (Header.labelValue? (trim opening) Language.standard.detailsLabel).isSome = true

variable {opening : List Char} {ds : List DetailLine}

theorem OpensDetails.exists_rest (h : OpensDetails opening) :
    ∃ rest, trim opening = '详' :: '情' :: rest := by
  have hlabel := h.label
  rw [Header.labelValue?] at hlabel
  cases hafter : after? Language.standard.detailsLabel (trim opening) with
  | none =>
      rw [hafter] at hlabel
      cases hlabel
  | some rest => exact ⟨rest, after?_eq_some.1 hafter⟩

theorem OpensDetails.isMarker_eq_false (h : OpensDetails opening) :
    Language.standard.isMarker (trim opening) = false := by
  obtain ⟨rest, hopening⟩ := h.exists_rest
  simp [hopening, Language.isMarker, Language.standard, after?]

theorem OpensDetails.next_eq (h : OpensDetails opening) (r : Header.Reading) :
    r.next .standard (trim opening) = { r with inDetails := true } := by
  obtain ⟨rest, hopening⟩ := h.exists_rest
  obtain ⟨value, hvalue⟩ := Option.isSome_iff_exists.1 h.label
  rw [hopening] at hvalue
  have hcase : Header.labelValue? (trim opening) Language.standard.caseLabel = none := by
    simp [hopening, Header.labelValue?, Language.standard, after?]
  have hname : Header.labelValue? (trim opening) Language.standard.scriptNameLabel = none := by
    simp [hopening, Header.labelValue?, Language.standard, after?]
  have hcomment : Language.standard.isComment (trim opening) = false := by
    simp [hopening, Language.isComment, Language.standard, after?]
  rw [Header.Reading.next, hcase, hname, hcomment, hopening, hvalue]
  rfl

/-- The lines of the details are lines of the header, every one. -/
theorem headerLines_detailsText (hopening : OpensDetails opening) (hds : ∀ d ∈ ds, d.WellFormed) :
    Header.lines .standard (detailsText opening ds) = opening :: ds.map DetailLine.text := by
  have hnewline : ∀ line ∈ opening :: ds.map DetailLine.text, '\n' ∉ line := by
    simp only [List.forall_mem_cons, List.forall_mem_map]
    exact ⟨hopening.one_line, fun d hd => newline_not_mem_text (hds d hd)⟩
  rw [Header.lines, detailsText, splitLines_joinLines (List.cons_ne_nil _ _) hnewline]
  refine List.takeWhile_eq_self_iff.2 ?_
  simp only [List.forall_mem_cons, List.forall_mem_map, Bool.not_eq_true']
  exact ⟨hopening.isMarker_eq_false, fun d hd => DetailLine.isMarker_eq_false (hds d hd)⟩

/-- Lines of the details add their pairs, one after the other. -/
theorem foldl_next_texts (hds : ∀ d ∈ ds, d.WellFormed) (h : Header) :
    (ds.map DetailLine.text).foldl (fun r line => r.next .standard (trim line))
        (⟨h, true⟩ : Header.Reading) =
      ⟨{ h with details := Header.putAll h.details (ds.map DetailLine.cut) }, true⟩ := by
  induction ds generalizing h with
  | nil => rfl
  | cons d ds ih =>
      obtain ⟨hd, hrest⟩ := List.forall_mem_cons.1 hds
      rw [List.map_cons, List.foldl_cons, next_text hd, ih hrest]
      rfl

theorem header_detailsText (hopening : OpensDetails opening) (hds : ∀ d ∈ ds, d.WellFormed) :
    header .standard (detailsText opening ds) =
      ⟨none, none, Header.putAll [] (ds.map DetailLine.cut)⟩ := by
  simp only [header]
  rw [headerLines_detailsText hopening hds, List.foldl_cons, hopening.next_eq,
    foldl_next_texts hds]
  rfl

/-- A line that is cut elsewhere than written has a key that no line is written with. -/
theorem mem_cut_of_wide {d : DetailLine} (hcolon : d.colon = .wide) (hvalue : ':' ∈ d.value) :
    '：' ∈ d.cut.1 := by
  obtain ⟨⟨before, after⟩, hcut⟩ : ∃ p, cutAt ':' d.value = some p :=
    Option.ne_none_iff_exists'.1 fun hnone => cutAt_eq_none.1 hnone hvalue
  rw [cut, hcolon, hcut]
  obtain ⟨a, b, ha, hb, hs⟩ := exists_trim (d.key ++ '：' :: before)
  have hmem : '：' ∈ a ++ trim (d.key ++ '：' :: before) ++ b := by
    rw [← hs]
    simp
  -- the blanks that are trimmed off hold no colon
  have hblank : ∀ {s : List Char}, allBlank s = true → '：' ∉ s := fun hs hmem =>
    absurd (allBlank_iff.1 hs _ hmem) (by decide)
  rw [List.mem_append, List.mem_append] at hmem
  exact (hmem.resolve_right (hblank hb)).resolve_left (hblank ha)

theorem cut_eq_pair {d : DetailLine} (h : d.colon = .wide → ':' ∉ d.value) : d.cut = d.pair := by
  rw [cut]
  split
  · next hcolon hcut =>
    rw [cutAt_eq_none.2 (h hcolon)] at hcut
    cases hcut
  · rfl

/-- What is promised of a script that is nothing but details, where the lines `ds` follow the line
that opens them. -/
structure DetailsRead (opening : List Char) (ds : List DetailLine) : Prop where
  caseId_eq : (header .standard (detailsText opening ds)).caseId = none
  scriptName_eq : (header .standard (detailsText opening ds)).scriptName = none
  /-- Each key is there once. -/
  nodup : ((header .standard (detailsText opening ds)).details.map Prod.fst).Nodup
  /-- The details are the pairs that the lines are cut into, the last one for each key. -/
  lookup_eq : ∀ key, (header .standard (detailsText opening ds)).details.lookup key =
    (ds.map DetailLine.cut).reverse.lookup key
  /-- They are the pairs that were written exactly if no value with a plain colon follows a
  full-width one. -/
  written_iff : (∀ key, (header .standard (detailsText opening ds)).details.lookup key =
      (ds.map DetailLine.pair).reverse.lookup key) ↔
    ∀ d ∈ ds, d.colon = .wide → ':' ∉ d.value

/-- **The details are read line by line.** -/
theorem detailsRead (hopening : OpensDetails opening) (hds : ∀ d ∈ ds, d.WellFormed) :
    DetailsRead opening ds := by
  have hheader := header_detailsText hopening hds
  have hlookup : ∀ key, (header .standard (detailsText opening ds)).details.lookup key =
      (ds.map DetailLine.cut).reverse.lookup key := by
    intro key
    rw [hheader, Header.lookup_putAll, List.lookup_nil, Option.or_none]
  refine ⟨by rw [hheader], by rw [hheader], ?_, hlookup, ?_, ?_⟩
  · rw [hheader]
    exact @Header.nodup_putAll [] List.nodup_nil _
  · intro hwritten d hd hcolon hvalue
    -- the key that the line is cut into was not written on any line
    have hfound : ((ds.map DetailLine.cut).reverse.lookup d.cut.1).isSome = true :=
      List.lookup_isSome_iff.2 ⟨d.cut, by simpa using ⟨d, hd, rfl⟩, by simp⟩
    rw [← hlookup, hwritten, List.lookup_isSome_iff] at hfound
    obtain ⟨p, hp, hkey⟩ := hfound
    obtain ⟨d', hd', rfl⟩ : ∃ d' ∈ ds, d'.pair = p := by simpa using hp
    have hmem := mem_cut_of_wide hcolon hvalue
    rw [beq_iff_eq.1 hkey] at hmem
    exact absurd ((hds d' hd').key_colon '：' hmem) (by decide)
  · intro hplain key
    have hcut : ds.map DetailLine.cut = ds.map DetailLine.pair :=
      List.map_congr_left fun d hd => cut_eq_pair (hplain d hd)
    rw [hlookup, hcut]

/-- Details with an address behind a plain colon, and a key that is given twice. -/
theorem detailsRead_address :
    let ds : List DetailLine :=
      [⟨"\turl ".toList, .plain, " http://x：1".toList⟩, ⟨"用例名".toList, .wide, "a：b".toList⟩,
        ⟨"url".toList, .wide, "".toList⟩]
    OpensDetails "详情 ：".toList ∧ (∀ d ∈ ds, d.WellFormed) ∧ DetailsRead "详情 ：".toList ds ∧
      (header .standard (detailsText "详情 ：".toList ds)).details.lookup "用例名".toList =
        some "a：b".toList := by
  intro ds
  have hopening : OpensDetails "详情 ：".toList := ⟨by decide, by decide⟩
  have hds : ∀ d ∈ ds, d.WellFormed := by decide
  have hread := detailsRead hopening hds
  refine ⟨hopening, hds, hread, ?_⟩
  rw [hread.written_iff.2 (by decide)]
  decide

/-- **A plain colon in the value takes the place of a full-width one**: the key of an address is not
the one that was written. -/
theorem not_lookup_eq_written :
    let d : DetailLine := ⟨"k".toList, .wide, "http://x".toList⟩
    let details := (header .standard (detailsText "详情:".toList [d])).details
    OpensDetails "详情:".toList ∧ d.WellFormed ∧ d.pair = ("k".toList, "http://x".toList) ∧
      details = [("k：http".toList, "//x".toList)] ∧
      ¬ ∀ key, details.lookup key = [d.pair].reverse.lookup key := by
  intro d details
  exact ⟨⟨by decide, by decide⟩, by decide, by decide, by decide,
    fun h => absurd (h "k".toList) (by decide)⟩

end Script

end StepScript
