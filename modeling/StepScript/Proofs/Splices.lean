import Mathlib.Data.List.TakeWhile
import StepScript.Proofs.EditorEdits
import StepScript.Proofs.MovedLine
import StepScript.Proofs.OpenedEditor
import StepScript.Proofs.ParameterUpdate
import StepScript.Proofs.Views
import StepScript.Script.Header

/-!
# Edits as splices

Every block edit of a script with a marker is a **splice** of its lines: one line may be taken out,
and one text may be put in, at a place among the lines that are left. The text may itself hold line
ends, and then becomes several lines. Whatever is asked for, a splice stays behind the marker; and
every line that is left can be found again, since only its index changes.

Main statements:

* `EditorEdit.exists_splices` — which splice a block edit is;
* `Splice.exists_splitLines_onText` — the lines in front of a splice are kept;
* `Splice.splitLines_normalize_onText`, `Splice.getElem?_applied_moved` — the lines of a text after
  a splice, and where the old ones are among them.
-/

set_option autoImplicit false

namespace StepScript

open Text

/-! ## Lines behind closed lines -/

namespace Text

/-- Closed lines are lines of their own, whatever follows them. -/
theorem splitLines_closedLines_append {front : List (List Char)} (h : ∀ line ∈ front, '\n' ∉ line)
    (s : List Char) : splitLines (closedLines front ++ s) = front ++ splitLines s := by
  induction front with
  | nil => rfl
  | cons line front ih =>
      obtain ⟨hline, hfront⟩ := List.forall_mem_cons.1 h
      have hclosed : closedLines (line :: front) ++ s =
          line ++ '\n' :: (closedLines front ++ s) := by
        simp [closedLines]
      rw [hclosed, splitLines_append_newline _ hline, ih hfront, List.cons_append]

theorem not_mem_closedLines {d : Char} (hd : d ≠ '\n') {front : List (List Char)}
    (h : ∀ line ∈ front, d ∉ line) : d ∉ closedLines front := by
  simp only [closedLines, List.mem_flatMap, List.mem_append, List.mem_singleton, hd, or_false]
  rintro ⟨line, hline, hmem⟩
  exact h line hline hmem

theorem not_mem_joinLines {d : Char} (hd : d ≠ '\n') {lines : List (List Char)}
    (h : ∀ line ∈ lines, d ∉ line) : d ∉ joinLines lines := by
  rw [mem_joinLines_iff hd]
  rintro ⟨line, hline, hmem⟩
  exact h line hline hmem

/-- A line of a text that has normal line endings holds no line end. -/
theorem not_mem_of_normal {s line : List Char} (hnormal : '\r' ∉ s) (hline : line ∈ splitLines s) :
    '\n' ∉ line ∧ '\r' ∉ line :=
  ⟨not_mem_of_mem_splitLines hline,
    fun h => hnormal ((mem_iff_exists_line (by decide)).2 ⟨line, hline, h⟩)⟩

end Text

namespace LineEnding

/-- What comes behind normal text is normalized by itself. -/
theorem normalize_append_of_not_mem {s : List Char} (h : '\r' ∉ s) (t : List Char) :
    normalize (s ++ t) = s ++ normalize t := by
  induction s with
  | nil => rfl
  | cons c s ih =>
      rw [List.mem_cons, not_or] at h
      rw [List.cons_append, normalize_cons_of_ne (Ne.symm h.1), ih h.2, List.cons_append]

/-- A line feed cuts a text in two that are normalized apart, unless it completes a line ending. -/
theorem normalize_append_newline {s : List Char} (h : s.getLast? ≠ some '\r') (t : List Char) :
    normalize (s ++ '\n' :: t) = normalize s ++ '\n' :: normalize t := by
  fun_induction normalize s with
  | case1 s ih =>
      rw [List.cons_append, List.cons_append, normalize, ih, List.cons_append]
      intro hlast
      exact h (by simp [List.getLast?_cons, hlast])
  | case2 s hs ih =>
      -- the carriage return is not the last character, and no line feed follows it
      cases s with
      | nil => exact absurd rfl h
      | cons d s =>
          have hd : d ≠ '\n' := fun heq => hs s (by rw [heq])
          rw [List.cons_append, normalize, ih, List.cons_append]
          · rwa [List.getLast?_cons_cons] at h
          · intro s' heq
            exact hd (List.cons.inj heq).1
  | case3 c s h1 hc ih =>
      cases s with
      | nil => simp [normalize_cons_of_ne (fun heq => hc heq), normalize]
      | cons d s =>
          rw [List.cons_append, normalize_cons_of_ne (fun heq => hc heq), ih, List.cons_append]
          rwa [List.getLast?_cons_cons] at h
  | case4 => rw [List.nil_append, normalize_cons_of_ne (by decide), List.nil_append]

end LineEnding

/-! ## Splices -/

/-- A change of a list of lines. -/
structure Splice where
  /-- The index of the line that is taken out, if one is. -/
  gone : Option Nat
  /-- How many of the lines that are left come before the text. -/
  place : Nat
  /-- The text that is put in, if one is. -/
  text : Option (List Char)

namespace Splice

def kept (p : Splice) (lines : List (List Char)) : List (List Char) :=
  match p.gone with
  | none => lines
  | some g => lines.eraseIdx g

/-- The lines that are left, with new ones put in. -/
def applied (p : Splice) (new lines : List (List Char)) : List (List Char) :=
  (p.kept lines).take p.place ++ new ++ (p.kept lines).drop p.place

def onText (p : Splice) (script : List Char) : List Char :=
  joinLines (p.applied p.text.toList (splitLines script))

/-- The lines that the text makes up in a buffer. -/
def written (p : Splice) : List (List Char) :=
  (p.text.map fun t => splitLines (LineEnding.normalize t)).getD []

/-- The index that a line has among those that are left. -/
def closedUp (p : Splice) (k : Nat) : Nat :=
  match p.gone with
  | none => k
  | some g => if g < k then k - 1 else k

/-- The index that a line which is left has afterwards. -/
def moved (p : Splice) (k : Nat) : Nat :=
  if p.closedUp k < p.place then p.closedUp k else p.closedUp k + p.written.length

/-- The index at which a line is found afterwards, if it is. The text takes the place of a line that
is taken out. -/
def carry (p : Splice) (k : Nat) : Option Nat :=
  if p.gone = some k then p.text.map fun _ => p.place else some (p.moved k)

@[simp] theorem kept_some (g place : Nat) (text : Option (List Char)) (lines : List (List Char)) :
    kept ⟨some g, place, text⟩ lines = lines.eraseIdx g := rfl

variable {p : Splice}

/-! ## Lines in front -/

/-- A splice that leaves the first `n` lines as they are. -/
structure Behind (p : Splice) (n : Nat) : Prop where
  gone : ∀ g ∈ p.gone, n ≤ g
  place : n ≤ p.place

theorem exists_kept_append {front : List (List Char)} (h : p.Behind front.length)
    (rest : List (List Char)) : ∃ left, p.kept (front ++ rest) = front ++ left := by
  unfold kept
  split
  · exact ⟨rest, rfl⟩
  · next g hg => exact ⟨_, List.eraseIdx_append_of_length_le (h.gone g hg) rest⟩

/-- The lines in front of a splice are kept. -/
theorem exists_applied_append {front : List (List Char)} (h : p.Behind front.length)
    (new rest : List (List Char)) :
    ∃ rest', p.applied new (front ++ rest) = front ++ rest' := by
  obtain ⟨left, hleft⟩ := exists_kept_append h rest
  refine ⟨left.take (p.place - front.length) ++ new ++ left.drop (p.place - front.length), ?_⟩
  rw [applied, hleft, List.take_append, List.take_of_length_le h.place, List.drop_append,
    List.drop_of_length_le h.place, List.nil_append, List.append_assoc, List.append_assoc,
    List.append_assoc]

/-- Also when the text that is put in holds line feeds, the lines in front are kept. -/
theorem exists_splitLines_onText {script : List Char} {front rest : List (List Char)}
    (hlines : splitLines script = front ++ rest) (hfront : front ≠ [])
    (h : p.Behind front.length) : ∃ rest', splitLines (p.onText script) = front ++ rest' := by
  obtain ⟨rest', happlied⟩ := exists_applied_append h p.text.toList rest
  have hnewline : ∀ line ∈ front, '\n' ∉ line := fun line hline =>
    not_mem_of_mem_splitLines (s := script) (by rw [hlines]; simp [hline])
  rw [onText, hlines, happlied]
  by_cases hrest : rest' = []
  · exact ⟨[], by rw [hrest, List.append_nil, splitLines_joinLines hfront hnewline]⟩
  · rw [joinLines_append front hrest, splitLines_closedLines_append hnewline]
    exact ⟨_, rfl⟩

/-! ## Lines that are left -/

theorem kept_subset (p : Splice) (lines : List (List Char)) : p.kept lines ⊆ lines := by
  unfold kept
  split
  · exact fun _ h => h
  · exact (List.eraseIdx_sublist _ _).subset

theorem getElem?_kept_closedUp {k : Nat} (lines : List (List Char)) (h : p.gone ≠ some k) :
    (p.kept lines)[p.closedUp k]? = lines[k]? := by
  unfold kept closedUp
  split
  · rfl
  · next g hg =>
    have hne : g ≠ k := fun heq => h (by rw [hg, heq])
    split
    · rw [List.getElem?_eraseIdx_of_ge (by omega), Nat.sub_add_cancel (by omega)]
    · rw [List.getElem?_eraseIdx_of_lt (by omega)]

theorem length_take_kept {lines : List (List Char)} (hplace : p.place ≤ (p.kept lines).length) :
    ((p.kept lines).take p.place).length = p.place := by
  rw [List.length_take, Nat.min_eq_left hplace]

/-- Every line that is left is found again. -/
theorem getElem?_applied_moved {lines : List (List Char)} {k : Nat} (hgone : p.gone ≠ some k)
    (hplace : p.place ≤ (p.kept lines).length) :
    (p.applied p.written lines)[p.moved k]? = lines[k]? := by
  have hlen := length_take_kept hplace
  rw [← getElem?_kept_closedUp lines hgone, applied, moved]
  split
  · next hlt =>
    rw [List.append_assoc, List.getElem?_append_left (by omega), List.getElem?_take, if_pos hlt]
  · next hle =>
    rw [List.getElem?_append_right (by rw [List.length_append]; omega), List.length_append, hlen,
      List.getElem?_drop]
    congr 1
    omega

/-- The text stands at its place. -/
theorem getElem?_applied_place {lines : List (List Char)} (htext : p.text ≠ none)
    (hplace : p.place ≤ (p.kept lines).length) :
    (p.applied p.written lines)[p.place]? = p.written.head? := by
  obtain ⟨t, ht⟩ := Option.ne_none_iff_exists'.1 htext
  have hne : p.written ≠ [] := by
    rw [written, ht]
    exact splitLines_ne_nil _
  have hlen := length_take_kept hplace
  obtain ⟨line, more, hwritten⟩ := List.exists_cons_of_ne_nil hne
  rw [applied, List.append_assoc, List.getElem?_append_right (by omega), hlen, Nat.sub_self,
    hwritten, List.cons_append, List.getElem?_cons_zero, List.head?_cons]

/-- What is found where a line was carried to: the line, or the text that took its place. -/
theorem getElem?_of_carry {lines : List (List Char)} {k k' : Nat}
    (hplace : p.place ≤ (p.kept lines).length) (h : p.carry k = some k') :
    (p.applied p.written lines)[k']? =
      if p.gone = some k then p.written.head? else lines[k]? := by
  unfold carry at h
  split at h
  · next hgone =>
    obtain ⟨t, ht, rfl⟩ := Option.map_eq_some_iff.1 h
    rw [if_pos hgone, getElem?_applied_place (by rw [ht]; simp) hplace]
  · next hgone =>
    obtain rfl := Option.some.inj h
    rw [if_neg hgone, getElem?_applied_moved hgone hplace]

/-! ## Lines of a buffer -/

/-- A text between lines makes up the lines that it has by itself. -/
theorem splitLines_normalize_joinLines {front back : List (List Char)} {t : List Char}
    (hfront : ∀ line ∈ front ++ back, '\n' ∉ line ∧ '\r' ∉ line)
    (ht : t.getLast? ≠ some '\r') :
    splitLines (LineEnding.normalize (joinLines (front ++ t :: back))) =
      front ++ (splitLines (LineEnding.normalize t) ++ back) := by
  have hlines := fun line hline => hfront line (List.mem_append_left back hline)
  have hback := fun line hline => hfront line (List.mem_append_right front hline)
  rw [joinLines_append front (List.cons_ne_nil t back), LineEnding.normalize_append_of_not_mem
      (not_mem_closedLines (by decide) fun line hline => (hlines line hline).2),
    splitLines_closedLines_append fun line hline => (hlines line hline).1]
  congr 1
  by_cases hnil : back = []
  · rw [hnil, List.append_nil]
    rfl
  · have hnormal : '\r' ∉ joinLines back :=
      not_mem_joinLines (by decide) fun line hline => (hback line hline).2
    rw [joinLines_cons t hnil, LineEnding.normalize_append_newline ht,
      LineEnding.normalize_of_not_mem hnormal, splitLines_append_cons,
      splitLines_joinLines hnil fun line hline => (hback line hline).1]

/-- The lines of a script that is put into a buffer after a splice. -/
theorem splitLines_normalize_onText {script : List Char} (hnormal : '\r' ∉ script)
    (hkept : p.kept (splitLines script) ≠ []) (ht : ∀ t ∈ p.text, t.getLast? ≠ some '\r') :
    splitLines (LineEnding.normalize (p.onText script)) =
      p.applied p.written (splitLines script) := by
  have hlines : ∀ line ∈ p.kept (splitLines script), '\n' ∉ line ∧ '\r' ∉ line := fun line hline =>
    not_mem_of_normal hnormal (p.kept_subset _ hline)
  rw [onText, applied, applied, written]
  cases htext : p.text with
  | none =>
      have hjoined : '\r' ∉ joinLines (p.kept (splitLines script)) :=
        not_mem_joinLines (by decide) fun line hline => (hlines line hline).2
      simp only [Option.toList_none, List.append_nil, List.take_append_drop, Option.map_none,
        Option.getD_none]
      rw [LineEnding.normalize_of_not_mem hjoined,
        splitLines_joinLines hkept fun line hline => (hlines line hline).1]
  | some t =>
      rw [Option.toList_some, List.append_assoc, List.singleton_append,
        splitLines_normalize_joinLines, Option.map_some, Option.getD_some, List.append_assoc]
      · rw [List.take_append_drop]
        exact hlines
      · exact ht t htext

end Splice

/-! ## Pushed lines -/

namespace Script

/-- Where a line that is pushed goes among some lines: behind all of them but an empty last one. -/
def pushPlace (lines : List (List Char)) : Nat :=
  if lines.getLast? = some [] then lines.length - 1 else lines.length

theorem pushPlace_le (lines : List (List Char)) : pushPlace lines ≤ lines.length := by
  unfold pushPlace
  split <;> omega

theorem pushPlace_append_empty (body : List (List Char)) :
    pushPlace (body ++ [[]]) = body.length := by
  simp [pushPlace]

/-- A line that is pushed goes behind every line that is not empty. -/
theorem lt_pushPlace {lines : List (List Char)} {k : Nat} {line : List Char}
    (h : lines[k]? = some line) (hne : line ≠ []) : k < pushPlace lines := by
  have hlt := (List.getElem?_eq_some_iff.1 h).1
  unfold pushPlace
  split
  · next hlast =>
    have hk : k ≠ lines.length - 1 := by
      rintro rfl
      rw [← List.getLast?_eq_getElem?, hlast] at h
      exact hne (Option.some.inj h).symm
    omega
  · exact hlt

/-- The last line of a text that is not empty is empty only behind a line feed. -/
theorem getLast?_splitLines_ne {s : List Char} (hs : s ≠ []) (h : s.getLast? ≠ some '\n') :
    (splitLines s).getLast? ≠ some [] := by
  intro hlast
  obtain ⟨body, hbody⟩ := List.getLast?_eq_some_iff.1 hlast
  have hjoin := joinLines_splitLines s
  rw [hbody] at hjoin
  rcases List.eq_nil_or_concat' body with rfl | ⟨front, line, rfl⟩
  · exact hs hjoin.symm
  · rw [joinLines_append _ (List.cons_ne_nil _ _)] at hjoin
    exact h (by rw [← hjoin]; simp [closedLines, joinLines])

/-- Pushing a line is a splice, also when the line holds line feeds. -/
theorem pushLine_eq {script : List Char} (hs : script ≠ []) (line : List Char) :
    pushLine script line =
      Splice.onText ⟨none, pushPlace (splitLines script), some line⟩ script := by
  have hempty : script.isEmpty = false := by simpa using hs
  rw [Splice.onText, Splice.applied, Splice.kept, pushLine, hempty, if_neg Bool.false_ne_true]
  by_cases hlast : script.getLast? = some '\n'
  · obtain ⟨u, rfl⟩ := List.getLast?_eq_some_iff.1 hlast
    have hlines : splitLines (u ++ ['\n']) = splitLines u ++ [[]] := splitLines_append_cons u []
    simp only [hlines, pushPlace_append_empty, List.take_left, List.drop_left, Option.toList_some]
    have hclosed := closedLines_splitLines u
    rw [if_pos hlast, List.append_assoc (splitLines u),
      joinLines_append (splitLines u) (by simp), hclosed, List.append_assoc]
    rfl
  · have hplace : pushPlace (splitLines script) = (splitLines script).length :=
      if_neg (getLast?_splitLines_ne hs hlast)
    simp only [hplace, List.take_length, List.drop_length, Option.toList_some, List.append_nil]
    rw [if_neg hlast, joinLines_append _ (List.cons_ne_nil _ _), closedLines_splitLines]
    simp [joinLines]

/-- A command line is the line with its index. -/
theorem getElem?_splitLines_index {lang : Language} {script : List Char} {i : Nat} {l : CommandLine}
    (h : (commandLines lang script)[i]? = some l) :
    (splitLines script)[l.index]? = some l.text := by
  obtain ⟨front, back, hp⟩ := exists_placed lang h
  rw [hp.lines_eq, hp.index_eq, List.getElem?_append_right (Nat.le_refl _), Nat.sub_self,
    List.getElem?_cons_zero]

end Script

/-! ## Block edits -/

namespace EditorEdit

open Script

/-- Which splice a block edit of a script with a marker is, in the built-in language. -/
inductive Splices (script : List Char) : EditorEdit → Splice → Prop
  | append (c : Command) :
    Splices script (.append c) ⟨none, pushPlace (splitLines script),
      some (appendIndent (commandLines .standard script) ++ c.toLine)⟩
  | insertLast (c : Command) :
    Splices script (.insert c (count .standard script)) ⟨none, pushPlace (splitLines script),
      some (appendIndent (commandLines .standard script) ++ c.toLine)⟩
  | insert (c : Command) {index : Nat} {l : CommandLine}
    (hl : (commandLines .standard script)[index]? = some l) :
    Splices script (.insert c index) ⟨none, l.index, some (indentation l.text ++ c.toLine)⟩
  | remove {index : Nat} {l : CommandLine}
    (hl : (commandLines .standard script)[index]? = some l) :
    Splices script (.remove index) ⟨some l.index, l.index, none⟩
  | reorder {start target : Nat} {l m : CommandLine}
    (hl : (commandLines .standard script)[start]? = some l)
    (hm : (commandLines .standard script)[target]? = some m) (hne : start ≠ target) :
    Splices script (.reorder start target)
      ⟨some l.index, CommandLine.indexWithout l.index m, some l.text⟩
  | drop {start boundary : Nat} {l m : CommandLine}
    (hl : (commandLines .standard script)[start]? = some l)
    (hm : (commandLines .standard script)[boundary]? = some m) (hne : start ≠ boundary) :
    Splices script (.dropBlock start boundary)
      ⟨some l.index, CommandLine.indexWithout l.index m, some l.text⟩
  | dropLast {start boundary : Nat} {l : CommandLine}
    (hl : (commandLines .standard script)[start]? = some l)
    (hle : count .standard script ≤ boundary) (hbelow : start + 1 < count .standard script) :
    Splices script (.dropBlock start boundary)
      ⟨some l.index, pushPlace ((splitLines script).eraseIdx l.index),
        some (appendIndent (commandLines .standard
          (joinLines ((splitLines script).eraseIdx l.index))) ++ (readLine .standard l).toLine)⟩
  | updateParam {index : Nat} {l : CommandLine} {name value : List Char} {c : Command}
    (hl : (commandLines .standard script)[index]? = some l)
    (hc : (readLine .standard l).withParam name value = .ok c) :
    Splices script (.updateParam index name value)
      ⟨some l.index, l.index, some (indentation l.text ++ c.toLine)⟩

variable {script : List Char}

theorem joinLines_insertIdx {p : Splice} {t : List Char} (ht : p.text = some t)
    (hplace : p.place ≤ (p.kept (splitLines script)).length) :
    joinLines ((p.kept (splitLines script)).insertIdx p.place t) = p.onText script := by
  have hinsert := insertIdx_length_append ((p.kept (splitLines script)).take p.place)
    ((p.kept (splitLines script)).drop p.place) t
  rw [Splice.length_take_kept hplace, List.take_append_drop] at hinsert
  rw [hinsert, Splice.onText, Splice.applied, ht, Option.toList_some, List.append_assoc,
    List.singleton_append]

/-- A place among the lines that are left is one of them, or right behind them. -/
theorem Splices.place_le {x : EditorEdit} {p : Splice} (h : x.Splices script p) :
    p.place ≤ (p.kept (splitLines script)).length := by
  have hindex : ∀ {i : Nat} {l : CommandLine}, (commandLines .standard script)[i]? = some l →
      l.index < (splitLines script).length := fun hl =>
    index_lt_of_mem_commandLines (List.mem_of_getElem? hl)
  have herase : ∀ {i : Nat} {l : CommandLine}, (commandLines .standard script)[i]? = some l →
      ((splitLines script).eraseIdx l.index).length = (splitLines script).length - 1 := fun hl => by
    rw [List.length_eraseIdx, if_pos (hindex hl)]
  have hplace : ∀ {i : Nat} {l : CommandLine}, (commandLines .standard script)[i]? = some l →
      l.index ≤ ((splitLines script).eraseIdx l.index).length := fun hl => by
    rw [herase hl]
    exact Nat.le_sub_one_of_lt (hindex hl)
  have hwithout : ∀ {i j : Nat} {l m : CommandLine},
      (commandLines .standard script)[i]? = some l → (commandLines .standard script)[j]? = some m →
      CommandLine.indexWithout l.index m ≤ ((splitLines script).eraseIdx l.index).length := by
    intro i j l m hl hm
    have hm' := hindex hm
    rw [herase hl, CommandLine.indexWithout]
    split <;> omega
  cases h with
  | append c => exact pushPlace_le _
  | insertLast c => exact pushPlace_le _
  | insert c hl => exact Nat.le_of_lt (hindex hl)
  | remove hl => exact hplace hl
  | reorder hl hm _ => exact hwithout hl hm
  | drop hl hm _ => exact hwithout hl hm
  | dropLast hl _ _ => exact pushPlace_le _
  | updateParam hl _ => exact hplace hl

/-- A command that is appended is pushed behind the commands that are there. -/
theorem append_eq_onText (hm : hasMarker .standard script = true) (c : Command) :
    Script.append .standard script c = Splice.onText ⟨none, pushPlace (splitLines script),
      some (appendIndent (commandLines .standard script) ++ c.toLine)⟩ script := by
  rw [append_eq, withMarker, if_pos hm, pushLine_eq (ne_nil_of_hasMarker hm)]

/-- A move puts the line of one command in front of that of another one. -/
theorem exists_of_reorder {start target : Nat} {text : List Char}
    (h : Script.reorder .standard script start target = some text) :
    ∃ l m, (commandLines .standard script)[start]? = some l ∧
      (commandLines .standard script)[target]? = some m ∧ start ≠ target ∧
      joinLines (((splitLines script).eraseIdx l.index).insertIdx
        (CommandLine.indexWithout l.index m) l.text) = text := by
  obtain ⟨l, m, hl, hm, -⟩ := (movesOneLine_reorder .standard script start target).moved text h
  have hsome : ¬ (start = target ∨ (commandLines .standard script).length ≤ target) := by
    intro hnone
    rw [reorder_eq_none (hnone.imp_right Or.inr)] at h
    cases h
  simp only [Script.reorder, hl] at h
  rw [if_neg hsome, getElem?_eraseIdx_target _ fun heq => hsome (Or.inl heq), hm] at h
  exact ⟨l, m, hl, hm, fun heq => hsome (Or.inl heq), Option.some.inj h⟩

/-- A command that is moved behind all others is taken out and pushed. -/
theorem exists_of_moveLast {start : Nat} {text : List Char}
    (h : Editor.moveLast .standard script start = .ok (some text)) :
    ∃ l, (commandLines .standard script)[start]? = some l ∧
      Splice.onText ⟨some l.index, pushPlace ((splitLines script).eraseIdx l.index),
        some (appendIndent (commandLines .standard
          (joinLines ((splitLines script).eraseIdx l.index))) ++ (readLine .standard l).toLine)⟩
        script = text := by
  rw [Editor.moveLast] at h
  split at h
  · cases h
  · next c hc =>
    have hlt : start < count .standard script := by
      rw [← length_parse Language.commentApart_standard]
      exact (List.getElem?_eq_some_iff.1 hc).1
    obtain ⟨l, front, back, hp⟩ := exists_placed_of_lt hlt
    obtain rfl : readLine .standard l = c := Option.some.inj (hp.getElem?_parse.symm.trans hc)
    -- what is left still has the marker, and so the command goes behind it
    have hleft : (splitLines script).eraseIdx l.index = front ++ back := by
      rw [hp.lines_eq, hp.index_eq, eraseIdx_length_append]
    obtain ⟨rest, hremove, hlines⟩ := hp.exists_remove
    have hmarker : hasMarker .standard rest = true := by
      rw [hasMarker_eq, hlines, anyMarker_append, hp.marker, Bool.true_or]
    have hrest : joinLines (front ++ back) = rest := by
      rw [← hlines, joinLines_splitLines]
    rw [hremove] at h
    refine ⟨l, hp.getElem?, ?_⟩
    rw [← Option.some.inj (Except.ok.inj h), append_eq_onText hmarker, hleft, hrest, Splice.onText,
      Splice.onText, hlines]
    simp only [Splice.applied, Splice.kept, hleft]

theorem getElem?_of_commandLine {index : Nat} {l : CommandLine}
    (h : commandLine .standard script index = .ok l) :
    (commandLines .standard script)[index]? = some l := by
  rw [commandLine] at h
  split at h
  · next found hfound => rw [hfound, Except.ok.inj h]
  · cases h

/-- A command in front of another one is one line more. -/
theorem exists_of_insert {index : Nat} {c : Command} {text : List Char}
    (hne : index ≠ count .standard script)
    (h : Script.insert .standard script c index = .ok text) :
    ∃ l, (commandLines .standard script)[index]? = some l ∧
      joinLines ((splitLines script).insertIdx l.index (indentation l.text ++ c.toLine)) =
        text := by
  rw [Script.insert, if_neg hne] at h
  split at h
  · cases h
  · next l hl => exact ⟨l, getElem?_of_commandLine hl, Except.ok.inj h⟩

theorem exists_of_remove {index : Nat} {text : List Char}
    (h : Script.remove .standard script index = .ok text) :
    ∃ l, (commandLines .standard script)[index]? = some l ∧
      joinLines ((splitLines script).eraseIdx l.index) = text := by
  rw [Script.remove] at h
  split at h
  · cases h
  · next l hl => exact ⟨l, getElem?_of_commandLine hl, Except.ok.inj h⟩

/-- An answer that is mapped to a new text comes from one. -/
theorem eq_ok_of_map_some {answer : Except EditError (List Char)} {text : List Char}
    (h : answer.map some = .ok (some text)) : answer = .ok text := by
  cases answer with
  | error err => cases h
  | ok t => exact congrArg Except.ok (Option.some.inj (Except.ok.inj h))

/-- **Every block edit of a script with a marker is a splice.** -/
theorem exists_splices (hmarker : hasMarker .standard script = true) {x : EditorEdit}
    (hx : x.isBlockEdit = true) {text : List Char}
    (h : x.change .standard script = .ok (some text)) :
    ∃ p, x.Splices script p ∧ p.onText script = text := by
  cases x with
  | setText t => cases hx
  | append c =>
      refine ⟨_, .append c, ?_⟩
      rw [← append_eq_onText hmarker c]
      exact Option.some.inj (Except.ok.inj h)
  | insert c index =>
      have hinsert := eq_ok_of_map_some h
      by_cases hcount : index = count .standard script
      · rw [hcount, Script.insert, if_pos rfl, append_eq_onText hmarker c] at hinsert
        rw [hcount]
        exact ⟨_, .insertLast c, Except.ok.inj hinsert⟩
      · obtain ⟨l, hl, rfl⟩ := exists_of_insert hcount hinsert
        exact ⟨_, .insert c hl, (joinLines_insertIdx rfl (Splices.insert c hl).place_le).symm⟩
  | remove index =>
      obtain ⟨l, hl, rfl⟩ := exists_of_remove (eq_ok_of_map_some h)
      refine ⟨_, .remove hl, ?_⟩
      simp [Splice.onText, Splice.applied]
  | reorder start target =>
      obtain ⟨l, m, hl, hm, hne, rfl⟩ := exists_of_reorder (Except.ok.inj h)
      exact ⟨_, .reorder hl hm hne,
        (joinLines_insertIdx rfl (Splices.reorder hl hm hne).place_le).symm⟩
  | dropBlock start boundary =>
      obtain ⟨-, hreorder⟩ | ⟨hle, hbelow, hlast⟩ := Editor.reorder_or_moveLast_of_dropChange h
      · obtain ⟨l, m, hl, hm, hne, rfl⟩ := exists_of_reorder hreorder
        exact ⟨_, .drop hl hm hne, (joinLines_insertIdx rfl (Splices.drop hl hm hne).place_le).symm⟩
      · obtain ⟨l, hl, rfl⟩ := exists_of_moveLast hlast
        exact ⟨_, .dropLast hl hle hbelow, rfl⟩
  | updateParam index name value =>
      obtain ⟨l, front, back, c, hp, hc, rfl⟩ := exists_of_updateParam (eq_ok_of_map_some h)
      refine ⟨_, .updateParam hp.getElem? hc, ?_⟩
      rw [Splice.onText, Splice.applied, Splice.kept_some, hp.lines_eq, hp.index_eq,
        eraseIdx_length_append, List.take_left, List.drop_left]
      simp

/-! ## Behind the marker -/

end EditorEdit

namespace Script

variable {script : List Char}

/-- The first marker line of a script in the built-in language, between the lines around it. -/
structure FirstMarker (script : List Char) (front : List (List Char)) (marker : List Char)
    (rest : List (List Char)) : Prop where
  lines_eq : splitLines script = front ++ marker :: rest
  front_eq : front = Header.lines .standard script
  marker : Language.standard.isMarker (trim marker) = true

theorem anyMarker_headerLines (script : List Char) :
    anyMarker .standard (Header.lines .standard script) = false := by
  rw [anyMarker, List.any_eq_false]
  intro line hline
  simpa using List.mem_takeWhile_imp hline

theorem exists_firstMarker (h : hasMarker .standard script = true) :
    ∃ front marker rest, FirstMarker script front marker rest := by
  have hcut := List.takeWhile_append_dropWhile
    (p := fun line => !Language.standard.isMarker (trim line)) (l := splitLines script)
  cases hdrop : (splitLines script).dropWhile fun line =>
      !Language.standard.isMarker (trim line) with
  | nil =>
      rw [hdrop, List.append_nil] at hcut
      have hnone := anyMarker_headerLines script
      rw [Header.lines, hcut, ← hasMarker_eq, h] at hnone
      cases hnone
  | cons marker rest =>
      rw [hdrop] at hcut
      refine ⟨_, marker, rest, hcut.symm, rfl, ?_⟩
      have hhead := List.head?_dropWhile_not
        (fun line => !Language.standard.isMarker (trim line)) (splitLines script)
      rw [hdrop] at hhead
      simpa using hhead

variable {front rest : List (List Char)} {marker : List Char}

theorem FirstMarker.lines_eq_append (h : FirstMarker script front marker rest) :
    splitLines script = (front ++ [marker]) ++ rest := by
  rw [h.lines_eq, List.append_assoc, List.singleton_append]

/-- Command lines stand behind the first marker. -/
theorem FirstMarker.lt_index (h : FirstMarker script front marker rest) {i : Nat} {l : CommandLine}
    (hl : (commandLines .standard script)[i]? = some l) : front.length < l.index := by
  obtain ⟨above, back, hp⟩ := exists_placed .standard hl
  by_contra hle
  -- otherwise the marker that stands above the command line is one of the lines in front
  have habove : above <+: splitLines script := ⟨l.text :: back, hp.lines_eq.symm⟩
  have hfront : front <+: splitLines script := ⟨marker :: rest, h.lines_eq.symm⟩
  obtain ⟨more, hmore⟩ := List.prefix_of_prefix_length_le habove hfront (by
    rw [← hp.index_eq]
    omega)
  have hnone := anyMarker_headerLines script
  rw [← h.front_eq, ← hmore, anyMarker_append, hp.marker] at hnone
  cases hnone

theorem FirstMarker.marker_ne_nil (h : FirstMarker script front marker rest) : marker ≠ [] := by
  rintro rfl
  have hmarker := h.marker
  rw [show trim [] = [] from rfl, isMarker_nil] at hmarker
  cases hmarker

end Script

namespace EditorEdit

open Script

/-- **A splice stays behind the first marker.** -/
theorem Splices.behind {script : List Char} {front rest : List (List Char)} {marker : List Char}
    (h : FirstMarker script front marker rest) {x : EditorEdit} {p : Splice}
    (hx : x.Splices script p) : p.Behind (front ++ [marker]).length := by
  have hlen : (front ++ [marker]).length = front.length + 1 := by simp
  have hpush : front.length < pushPlace (splitLines script) := by
    rw [h.lines_eq]
    exact lt_pushPlace (by simp) h.marker_ne_nil
  have hgone : ∀ {i : Nat} {l : CommandLine}, (commandLines .standard script)[i]? = some l →
      ∀ g ∈ some l.index, front.length + 1 ≤ g := fun hl g hg => by
    rw [← Option.mem_some_iff.1 hg]
    exact h.lt_index hl
  have hwithout : ∀ {i j : Nat} {l m : CommandLine},
      (commandLines .standard script)[i]? = some l → (commandLines .standard script)[j]? = some m →
      front.length + 1 ≤ CommandLine.indexWithout l.index m := by
    intro i j l m hl hm
    have hl' := h.lt_index hl
    have hm' := h.lt_index hm
    rw [CommandLine.indexWithout]
    split <;> omega
  rw [hlen]
  cases hx with
  | append c => exact ⟨by simp, hpush⟩
  | insertLast c => exact ⟨by simp, hpush⟩
  | insert c hl => exact ⟨by simp, h.lt_index hl⟩
  | remove hl => exact ⟨hgone hl, h.lt_index hl⟩
  | reorder hl hm hne => exact ⟨hgone hl, hwithout hl hm⟩
  | drop hl hm hne => exact ⟨hgone hl, hwithout hl hm⟩
  | @dropLast start boundary l hl hle hnext =>
      -- taking out a line behind the marker leaves the marker where it is
      refine ⟨hgone hl, ?_⟩
      have hidx : (front ++ [marker]).length ≤ l.index := by
        rw [hlen]
        exact h.lt_index hl
      have herase := List.eraseIdx_append_of_length_le hidx rest
      rw [h.lines_eq_append, herase, List.append_assoc, List.singleton_append]
      exact lt_pushPlace (by simp) h.marker_ne_nil
  | updateParam hl hc => exact ⟨hgone hl, h.lt_index hl⟩

/-! ## Edited buffers -/

variable {script : List Char}

/-- A canonical line does not end with a carriage return. -/
theorem getLast?_append_toLine_ne (indent : List Char) (c : Command) :
    (indent ++ c.toLine).getLast? ≠ some '\r' := by
  have hne : c.toLine ≠ [] := by
    rw [Command.toLine_eq]
    simp [Keyword.spelling_ne_nil]
  rw [List.getLast?_append_of_ne_nil _ hne]
  intro hlast
  have hblank := (trim_eq_self_iff.1 c.trim_toLine).2 '\r' hlast
  cases hblank

/-- A command line of a script that has normal line endings holds no line end. -/
theorem not_mem_text (hnormal : '\r' ∉ script) {i : Nat} {l : CommandLine}
    (hl : (commandLines .standard script)[i]? = some l) : '\n' ∉ l.text ∧ '\r' ∉ l.text :=
  not_mem_of_normal hnormal (List.mem_of_getElem? (getElem?_splitLines_index hl))

theorem Splices.getLast?_text_ne {script : List Char} (hnormal : '\r' ∉ script) {x : EditorEdit}
    {p : Splice} (hx : x.Splices script p) : ∀ t ∈ p.text, t.getLast? ≠ some '\r' := by
  have hmoved : ∀ {i : Nat} {l : CommandLine}, (commandLines .standard script)[i]? = some l →
      l.text.getLast? ≠ some '\r' := fun hl hlast =>
    (not_mem_text hnormal hl).2 (List.mem_of_getLast? hlast)
  intro t ht
  cases hx with
  | append c => exact Option.some.inj ht ▸ getLast?_append_toLine_ne _ c
  | insertLast c => exact Option.some.inj ht ▸ getLast?_append_toLine_ne _ c
  | insert c hl => exact Option.some.inj ht ▸ getLast?_append_toLine_ne _ c
  | remove hl => cases ht
  | reorder hl hm hne => exact Option.some.inj ht ▸ hmoved hl
  | drop hl hm hne => exact Option.some.inj ht ▸ hmoved hl
  | dropLast hl hle hnext => exact Option.some.inj ht ▸ getLast?_append_toLine_ne _ _
  | updateParam hl hc => exact Option.some.inj ht ▸ getLast?_append_toLine_ne _ _

/-- **The lines of a buffer after a block edit.** -/
theorem Splices.splitLines_eq {script : List Char} (hnormal : '\r' ∉ script)
    (hmarker : hasMarker .standard script = true) {x : EditorEdit} {p : Splice}
    (hx : x.Splices script p) :
    splitLines (LineEnding.normalize (p.onText script)) =
      p.applied p.written (splitLines script) := by
  obtain ⟨front, marker, rest, hfirst⟩ := exists_firstMarker hmarker
  refine Splice.splitLines_normalize_onText hnormal ?_ (hx.getLast?_text_ne hnormal)
  obtain ⟨left, hleft⟩ := Splice.exists_kept_append (hx.behind hfirst) rest
  rw [hfirst.lines_eq_append, hleft]
  simp

end EditorEdit

end StepScript
