import StepScript.Proofs.CanonicalLine
import StepScript.Proofs.LineEdits

/-!
# Edits of the command sequence

In the standard language, the edits of a script are edits of the sequence of its commands: whatever
else the text holds, appending, inserting, removing and moving a command does to the contents of the
commands what the same operation does to a list.

Main statements:

* `ScriptEdit.answerContents_onText` — one edit of a text is one edit of the list;
* `ScriptEdit.trace_onText` — so are any edits one after the other.
-/

set_option autoImplicit false

namespace StepScript

open Text

/-! ## Contents -/

namespace Command

/-- What a command says, wherever it stands. -/
def content (c : Command) : Keyword × List Parameter :=
  (c.keyword, c.params)

/-- A **well-formed** command: its parameters are, and they hold no line feed. -/
def WellFormed (c : Command) : Prop :=
  ∀ p ∈ c.params, p.WellFormed ∧ '\n' ∉ p.raw

instance (c : Command) : Decidable c.WellFormed :=
  inferInstanceAs (Decidable (∀ p ∈ c.params, p.WellFormed ∧ '\n' ∉ p.raw))

theorem WellFormed.newline_not_mem_toLine {c : Command} (h : c.WellFormed) : '\n' ∉ c.toLine :=
  newline_not_mem_toLine_iff.2 fun p hp => (h p hp).2

theorem WellFormed.listed {c : Command} (h : c.WellFormed) : ∀ p ∈ c.params, p.Listed :=
  fun p hp => (h p hp).1.listed

theorem WellFormed.rereadable {c : Command} (h : c.WellFormed) : c.Rereadable :=
  rereadable_of_wellFormed fun p hp => (h p hp).1

end Command

namespace Script

def contents (script : List Char) : List (Keyword × List Parameter) :=
  (parse Language.standard script).map Command.content

def lineContent (l : CommandLine) : Keyword × List Parameter :=
  (l.keyword, lineParams Language.standard l.text)

def contentsAmong (inSteps : Bool) (lines : List (List Char)) : List (Keyword × List Parameter) :=
  (commandsAmong Language.standard inSteps 0 lines).map lineContent

/-- Where lines stand makes no difference to the contents. -/
theorem map_lineContent_commandsAmong (inSteps : Bool) (index : Nat) (lines : List (List Char)) :
    (commandsAmong Language.standard inSteps index lines).map lineContent =
      contentsAmong inSteps lines := by
  have hshift := commandsAmong_add Language.standard inSteps 0 index lines
  rw [Nat.zero_add] at hshift
  rw [hshift, List.map_map]
  rfl

theorem contents_eq_map (script : List Char) :
    contents script = (commandLines Language.standard script).map lineContent := by
  rw [contents, parse_eq_map Language.commentApart_standard, List.map_map]
  rfl

theorem contents_eq (script : List Char) :
    contents script = contentsAmong false (splitLines script) :=
  contents_eq_map script

theorem length_contents (script : List Char) :
    (contents script).length = count Language.standard script := by
  rw [contents_eq_map, List.length_map, count]

theorem contentsAmong_append (inSteps : Bool) (xs ys : List (List Char)) :
    contentsAmong inSteps (xs ++ ys) =
      contentsAmong inSteps xs ++
        contentsAmong (inSteps || anyMarker Language.standard xs) ys := by
  rw [contentsAmong, commandsAmong_append, List.map_append, map_lineContent_commandsAmong,
    map_lineContent_commandsAmong]

/-- A command line behind a marker adds its content. -/
theorem contentsAmong_command {text : List Char} {k : Keyword} (rest : List (List Char))
    (h : IsCommandText Language.standard text k) :
    contentsAmong true (text :: rest) =
      (k, lineParams Language.standard text) :: contentsAmong true rest := by
  rw [contentsAmong, commandsAmong_cons, commandAt?_of_isCommandText _ h, List.map_append,
    map_lineContent_commandsAmong]
  rfl

/-- The canonical line of a command that is read back adds its content. -/
theorem contentsAmong_toLine {a : List Char} (rest : List (List Char)) {c : Command}
    (ha : allBlank a = true) (hlisted : ∀ p ∈ c.params, p.Listed) (hc : c.Rereadable) :
    contentsAmong true ((a ++ c.toLine) :: rest) = c.content :: contentsAmong true rest := by
  have hread := (Command.lineParams_toLine_iff ha hlisted).2 hc
  rw [contentsAmong_command rest (Command.isCommandText_toLine ha c), hread]
  rfl

/-- The contents of lines behind which there are more, once a marker came. -/
theorem contentsAmong_front {front : List (List Char)} (rest : List (List Char))
    (h : anyMarker Language.standard front = true) :
    contentsAmong false (front ++ rest) = contentsAmong false front ++ contentsAmong true rest := by
  rw [contentsAmong_append, h]
  rfl

/-- A command line of a script, and the commands in front of it. -/
theorem Placed.contents_eq {script : List Char} {rank : Nat} {l : CommandLine}
    {front back : List (List Char)} (h : Placed Language.standard script rank l front back) :
    contents script = contentsAmong false front ++ lineContent l :: contentsAmong true back ∧
      (contentsAmong false front).length = rank := by
  refine ⟨?_, by rw [contentsAmong, List.length_map, h.rank_eq]⟩
  rw [Script.contents_eq, h.lines_eq, contentsAmong_front _ h.marker,
    contentsAmong_command back h.command]
  rfl

end Script

/-! ## Edits of a text and of a list -/

/-- A list in which the item at one index is taken out and put in front of the one at another
index. -/
def moveItem {α : Type} (items : List α) (start target : Nat) : Option (List α) :=
  items[start]?.map fun item =>
    (items.eraseIdx start).insertIdx (if start < target then target - 1 else target) item

/-- An edit of the sequence of commands. -/
inductive ScriptEdit where
  /-- A command is added at the end. -/
  | append (c : Command)
  /-- A command is added in front of the one with an index, or at the end. -/
  | insert (c : Command) (index : Nat)
  /-- The command with an index is taken out. -/
  | remove (index : Nat)
  /-- A command is put in front of another one. -/
  | reorder (start target : Nat)

namespace ScriptEdit

/-- What an edit does to a text: an error, nothing, or the new text. -/
def onText : ScriptEdit → List Char → Except EditError (Option (List Char))
  | append c, script => .ok (some (Script.append Language.standard script c))
  | insert c index, script => (Script.insert Language.standard script c index).map some
  | remove index, script => (Script.remove Language.standard script index).map some
  | reorder start target, script => .ok (Script.reorder Language.standard script start target)

/-- What an edit does to a list of contents. -/
def onList : ScriptEdit → List (Keyword × List Parameter) →
    Except EditError (Option (List (Keyword × List Parameter)))
  | append c, items => .ok (some (items ++ [c.content]))
  | insert c index, items =>
    if index ≤ items.length then .ok (some (items.insertIdx index c.content))
    else .error (.indexOutOfRange index items.length)
  | remove index, items =>
    if index < items.length then .ok (some (items.eraseIdx index))
    else .error (.indexOutOfRange index items.length)
  | reorder start target, items =>
    if start = target ∨ items.length ≤ start ∨ items.length ≤ target then .ok none
    else .ok (moveItem items start target)

/-- An edit that adds well-formed commands only. -/
def WellFormed : ScriptEdit → Prop
  | append c => c.WellFormed
  | insert c _ => c.WellFormed
  | remove _ => True
  | reorder _ _ => True

instance (e : ScriptEdit) : Decidable e.WellFormed :=
  match e with
  | append c => inferInstanceAs (Decidable c.WellFormed)
  | insert c _ => inferInstanceAs (Decidable c.WellFormed)
  | remove _ => isTrue trivial
  | reorder _ _ => isTrue trivial

end ScriptEdit

/-! ## One edit -/

namespace Script

variable {script : List Char}

/-- Appending a command that is written on one line and read back adds its content at the end. -/
theorem contents_append (script : List Char) {c : Command} (hline : '\n' ∉ c.toLine)
    (hlisted : ∀ p ∈ c.params, p.Listed) (hc : c.Rereadable) :
    contents (append Language.standard script c) = contents script ++ [c.content] := by
  obtain ⟨body, tail, indent, hblank, hm, hbody, htail, hlines⟩ :=
    exists_append Language.standard script (by decide) (by decide) hline
  have hrest : contentsAmong true tail = [] := by
    rw [contentsAmong, htail, List.map_nil]
  have hfront : contentsAmong false body = contents script := by
    rw [contentsAmong, hbody, contents_eq_map]
  rw [contents_eq, hlines, contentsAmong_front _ hm, contentsAmong_toLine tail hblank hlisted hc,
    hrest,
    hfront]

/-- Inserting a command inserts its content. -/
theorem exists_contents_insert {c : Command} (hc : c.WellFormed) {index : Nat}
    (h : index ≤ count Language.standard script) :
    ∃ script', insert Language.standard script c index = .ok script' ∧
      contents script' = (contents script).insertIdx index c.content := by
  by_cases hend : index = count Language.standard script
  · refine ⟨append Language.standard script c, by rw [insert, if_pos hend], ?_⟩
    rw [contents_append script hc.newline_not_mem_toLine hc.listed hc.rereadable, hend,
      ← length_contents, List.insertIdx_length_self]
  · obtain ⟨l, front, back, hp⟩ := exists_placed_of_lt (Nat.lt_of_le_of_ne h hend)
    obtain ⟨script', hinsert, hlines⟩ := hp.exists_insert hc.newline_not_mem_toLine
    obtain ⟨hcontents, hlen⟩ := hp.contents_eq
    refine ⟨script', hinsert, ?_⟩
    rw [contents_eq, hlines, contentsAmong_front _ hp.marker,
      contentsAmong_toLine _ (allBlank_indentation l.text) hc.listed hc.rereadable,
      contentsAmong_command _ hp.command, hcontents, ← hlen, insertIdx_length_append]
    rfl

/-- Removing a command erases its content. -/
theorem exists_contents_remove {index : Nat} (h : index < count Language.standard script) :
    ∃ script', remove Language.standard script index = .ok script' ∧
      contents script' = (contents script).eraseIdx index := by
  obtain ⟨l, front, back, hp⟩ := exists_placed_of_lt h
  obtain ⟨script', hremove, hlines⟩ := hp.exists_remove
  obtain ⟨hcontents, hlen⟩ := hp.contents_eq
  refine ⟨script', hremove, ?_⟩
  rw [contents_eq, hlines, contentsAmong_front _ hp.marker, hcontents, ← hlen,
    eraseIdx_length_append]

/-- Two command lines of a script, and the commands around them. -/
theorem PlacedPair.contents_eq {rank rank' : Nat} {l m : CommandLine}
    {front mid back : List (List Char)}
    (h : PlacedPair Language.standard script rank rank' l m front mid back) :
    contents script = contentsAmong false front ++
        lineContent l :: (contentsAmong true mid ++ lineContent m :: contentsAmong true back) ∧
      (contentsAmong false front).length = rank ∧
      rank + 1 + (contentsAmong true mid).length = rank' := by
  obtain ⟨hcontents, hlen⟩ := h.placed.contents_eq
  refine ⟨?_, hlen, ?_⟩
  · rw [hcontents, contentsAmong_append, Bool.true_or, contentsAmong_command back h.command']
    rfl
  · rw [← map_lineContent_commandsAmong true (front.length + 1) mid, List.length_map]
    exact h.rank_eq'

theorem PlacedPair.contents_reorder_down {rank rank' : Nat} {l m : CommandLine}
    {front mid back : List (List Char)}
    (h : PlacedPair Language.standard script rank rank' l m front mid back) :
    ∃ script', reorder Language.standard script rank rank' = some script' ∧
      moveItem (contents script) rank rank' = some (contents script') := by
  obtain ⟨script', hreorder, hlines⟩ := h.exists_reorder_down
  obtain ⟨hcontents, hfront, hmid⟩ := h.contents_eq
  have hitem : (contents script)[rank]? = some (lineContent l) := by
    rw [hcontents, ← hfront, List.getElem?_append_right (Nat.le_refl _), Nat.sub_self,
      List.getElem?_cons_zero]
  have hplace : rank' - 1 = (contentsAmong false front ++ contentsAmong true mid).length := by
    rw [List.length_append]
    omega
  have herase : (contents script).eraseIdx rank = (contentsAmong false front ++
      contentsAmong true mid) ++ lineContent m :: contentsAmong true back := by
    rw [hcontents, ← hfront, eraseIdx_length_append, List.append_assoc]
  have hmoved : contents script' = (contentsAmong false front ++ contentsAmong true mid) ++
      lineContent l :: lineContent m :: contentsAmong true back := by
    rw [Script.contents_eq, hlines, List.append_assoc, contentsAmong_front _ h.marker,
      contentsAmong_append, Bool.true_or, contentsAmong_command _ h.command,
      contentsAmong_command _ h.command', List.append_assoc]
    rfl
  refine ⟨script', hreorder, ?_⟩
  rw [moveItem, hitem, Option.map_some, herase, if_pos h.rank_lt, hplace, insertIdx_length_append,
    hmoved]

theorem PlacedPair.contents_reorder_up {rank rank' : Nat} {l m : CommandLine}
    {front mid back : List (List Char)}
    (h : PlacedPair Language.standard script rank rank' l m front mid back) :
    ∃ script', reorder Language.standard script rank' rank = some script' ∧
      moveItem (contents script) rank' rank = some (contents script') := by
  obtain ⟨script', hreorder, hlines⟩ := h.exists_reorder_up
  obtain ⟨hcontents, hfront, hmid⟩ := h.contents_eq
  have hsplit : contents script = (contentsAmong false front ++ lineContent l ::
      contentsAmong true mid) ++ lineContent m :: contentsAmong true back := by
    rw [hcontents, List.append_assoc, List.cons_append]
  have hrank' : rank' = (contentsAmong false front ++ lineContent l ::
      contentsAmong true mid).length := by
    rw [List.length_append, List.length_cons]
    omega
  have hitem : (contents script)[rank']? = some (lineContent m) := by
    rw [hsplit, hrank', List.getElem?_append_right (Nat.le_refl _), Nat.sub_self,
      List.getElem?_cons_zero]
  have herase : (contents script).eraseIdx rank' = contentsAmong false front ++
      lineContent l :: (contentsAmong true mid ++ contentsAmong true back) := by
    rw [hsplit, hrank', eraseIdx_length_append, List.append_assoc, List.cons_append]
  have hmoved : contents script' = contentsAmong false front ++ lineContent m ::
      lineContent l :: (contentsAmong true mid ++ contentsAmong true back) := by
    rw [Script.contents_eq, hlines, contentsAmong_front _ h.marker,
      contentsAmong_command _ h.command', contentsAmong_command _ h.command, contentsAmong_append,
      Bool.true_or]
    rfl
  have hlt := h.rank_lt
  refine ⟨script', hreorder, ?_⟩
  rw [moveItem, hitem, Option.map_some, herase, if_neg (by omega), ← hfront,
    insertIdx_length_append, hmoved]

/-- Moving a command moves its content. -/
theorem exists_contents_reorder {start target : Nat} (hne : start ≠ target)
    (hstart : start < count Language.standard script)
    (htarget : target < count Language.standard script) :
    ∃ script', reorder Language.standard script start target = some script' ∧
      moveItem (contents script) start target = some (contents script') := by
  have hl := List.getElem?_eq_getElem hstart
  have hm := List.getElem?_eq_getElem htarget
  rcases Nat.lt_or_gt_of_ne hne with hlt | hlt
  · obtain ⟨front, mid, back, hp⟩ := exists_placedPair hl hm hlt
    exact hp.contents_reorder_down
  · obtain ⟨front, mid, back, hp⟩ := exists_placedPair hm hl hlt
    exact hp.contents_reorder_up

end Script

/-! ## Runs of edits -/

namespace ScriptEdit

/-- The contents of a text that an edit answers. -/
def answerContents (answer : Except EditError (Option (List Char))) :
    Except EditError (Option (List (Keyword × List Parameter))) :=
  answer.map (Option.map Script.contents)

/-- One edit of a text is one edit of the list of its contents. -/
theorem answerContents_onText {e : ScriptEdit} (he : e.WellFormed) (script : List Char) :
    answerContents (e.onText script) = e.onList (Script.contents script) := by
  have hlen := Script.length_contents script
  cases e with
  | append c =>
      rw [onText, onList, ← Script.contents_append script he.newline_not_mem_toLine he.listed
        he.rereadable]
      rfl
  | insert c index =>
      rw [onText, onList, hlen]
      by_cases h : index ≤ Script.count Language.standard script
      · obtain ⟨script', hinsert, hcontents⟩ := Script.exists_contents_insert he h
        rw [if_pos h, hinsert, ← hcontents]
        rfl
      · have hne : index ≠ Script.count Language.standard script := fun heq => h (Nat.le_of_eq heq)
        rw [if_neg h, Script.insert, if_neg hne, Script.commandLine_of_le (Nat.le_of_not_le h)]
        rfl
  | remove index =>
      rw [onText, onList, hlen]
      by_cases h : index < Script.count Language.standard script
      · obtain ⟨script', hremove, hcontents⟩ := Script.exists_contents_remove h
        rw [if_pos h, hremove, ← hcontents]
        rfl
      · rw [if_neg h, Script.remove, Script.commandLine_of_le (Nat.le_of_not_lt h)]
        rfl
  | reorder start target =>
      rw [onText, onList, hlen]
      by_cases h : start = target ∨ Script.count Language.standard script ≤ start ∨
          Script.count Language.standard script ≤ target
      · rw [if_pos h, Script.reorder_eq_none h]
        rfl
      · have hstart : start < Script.count Language.standard script := by omega
        have htarget : target < Script.count Language.standard script := by omega
        obtain ⟨script', hreorder, hcontents⟩ :=
          Script.exists_contents_reorder (fun heq => h (Or.inl heq)) hstart htarget
        rw [if_neg h, hreorder, hcontents]
        rfl

/-- What is used after an edit: an edit that fails or does nothing leaves everything as it is. -/
def kept {α : Type} (before : α) : Except EditError (Option α) → α
  | .ok (some after) => after
  | _ => before

/-- The answers to some edits, one after the other, and what is used after each of them. -/
def trace {α : Type} (edit : ScriptEdit → α → Except EditError (Option α)) (before : α) :
    List ScriptEdit → List (Except EditError (Option α) × α)
  | [] => []
  | e :: edits =>
    (edit e before, kept before (edit e before)) :: trace edit (kept before (edit e before)) edits

/-- Edits of a text, one after the other, are edits of the list of its contents. -/
theorem trace_onText (script : List Char) {edits : List ScriptEdit}
    (h : ∀ e ∈ edits, e.WellFormed) :
    (trace onText script edits).map (fun step => (answerContents step.1, Script.contents step.2)) =
      trace onList (Script.contents script) edits := by
  induction edits generalizing script with
  | nil => rfl
  | cons e edits ih =>
      have hstep := answerContents_onText (h e List.mem_cons_self) script
      -- an edit that fails or does nothing keeps the text, and with it the contents
      have hkept : Script.contents (kept script (e.onText script)) =
          kept (Script.contents script) (e.onList (Script.contents script)) := by
        rw [← hstep]
        cases e.onText script with
        | error _ => rfl
        | ok answer => cases answer <;> rfl
      have hrest := ih (kept script (e.onText script)) fun e' he' =>
        h e' (List.mem_cons_of_mem _ he')
      rw [trace, trace, List.map_cons, hrest, hstep, hkept]

/-- A script without a marker that gets two commands, which then change places; the last edit has no
command to remove. -/
theorem trace_onText_two_commands :
    let tap := Command.ofTexts .click ["{确定}".toList]
    let pause := Command.ofTexts .wait ["500".toList]
    let edits := [append tap, insert pause 0, reorder 1 0, remove 2]
    let script := "用例: 登录\n".toList
    (∀ e ∈ edits, e.WellFormed) ∧
      (trace onText script edits).map
          (fun step => (answerContents step.1, Script.contents step.2)) =
        trace onList (Script.contents script) edits :=
  ⟨by decide, trace_onText _ (by decide)⟩

end ScriptEdit

end StepScript
