import StepScript.Proofs.CommandLines
import StepScript.Proofs.Lines
import StepScript.Script.Edit

/-!
# Edits, line by line

What the edits of a script make of its lines, for every language. Each of them is stated for a
command line that stands between known lines, or for two command lines one behind the other.

Main statements:

* `Placed.exists_insert`, `Placed.exists_remove` — the lines after an edit at an index;
* `PlacedPair.exists_reorder_down`, `PlacedPair.exists_reorder_up` — the lines after a move;
* `exists_append` — the lines after a command is appended.
-/

set_option autoImplicit false

namespace StepScript.Script

open Text

/-! ## Lists -/

theorem eraseIdx_length_append {α : Type} (front back : List α) (x : α) :
    (front ++ x :: back).eraseIdx front.length = front ++ back := by
  rw [List.eraseIdx_append_of_length_le (Nat.le_refl _), Nat.sub_self, List.eraseIdx_cons_zero]

theorem insertIdx_length_append {α : Type} (front back : List α) (x : α) :
    (front ++ back).insertIdx front.length x = front ++ x :: back := by
  induction front with
  | nil => rfl
  | cons y front ih =>
      rw [List.cons_append, List.length_cons, List.insertIdx_succ_cons, ih, List.cons_append]

theorem set_length_append {α : Type} (front back : List α) (x y : α) :
    (front ++ x :: back).set front.length y = front ++ y :: back := by
  rw [List.set_append_right _ _ (Nat.le_refl _), Nat.sub_self, List.set_cons_zero]

variable {lang : Language} {script : List Char}

/-! ## One command line -/

theorem exists_placed_of_lt {rank : Nat} (h : rank < count lang script) :
    ∃ l front back, Placed lang script rank l front back :=
  ⟨_, exists_placed lang (List.getElem?_eq_getElem h)⟩

theorem commandLine_of_le {index : Nat} (h : count lang script ≤ index) :
    commandLine lang script index = .error (.indexOutOfRange index (count lang script)) := by
  rw [commandLine, List.getElem?_eq_none h]

section Placed

variable {rank : Nat} {l : CommandLine} {front back : List (List Char)}

theorem Placed.getElem? (h : Placed lang script rank l front back) :
    (commandLines lang script)[rank]? = some l := by
  rw [h.commandLines_eq, List.getElem?_append_right (Nat.le_of_eq h.rank_eq), h.rank_eq,
    Nat.sub_self, List.getElem?_cons_zero]

theorem Placed.rank_lt (h : Placed lang script rank l front back) : rank < count lang script :=
  (List.getElem?_eq_some_iff.1 h.getElem?).1

theorem Placed.commandLine_eq (h : Placed lang script rank l front back) :
    commandLine lang script rank = .ok l := by
  rw [commandLine, h.getElem?]

theorem Placed.front_ne_nil (h : Placed lang script rank l front back) : front ≠ [] := by
  rintro rfl
  exact Bool.false_ne_true h.marker

theorem Placed.newline_not_mem_text (h : Placed lang script rank l front back) : '\n' ∉ l.text :=
  not_mem_of_splitLines_eq_append h.lines_eq

theorem Placed.newline_not_mem_indentation (h : Placed lang script rank l front back) :
    '\n' ∉ indentation l.text := fun hmem =>
  h.newline_not_mem_text ((List.takeWhile_sublist _).subset hmem)

/-- A line in place of a command line leaves the other lines as they are. -/
theorem Placed.splitLines_joinLines (h : Placed lang script rank l front back)
    {new : List (List Char)} (hnew : ∀ line ∈ new, '\n' ∉ line) :
    splitLines (joinLines (front ++ new ++ back)) = front ++ new ++ back := by
  have hlines : splitLines script = front ++ [l.text] ++ back := by
    rw [h.lines_eq, List.append_assoc]
    rfl
  exact splitLines_joinLines_append hlines (by simp [h.front_ne_nil]) hnew

/-- A command that is inserted stands in front of the command line. -/
theorem Placed.exists_insert (h : Placed lang script rank l front back) {c : Command}
    (hc : '\n' ∉ c.toLine) :
    ∃ script', insert lang script c rank = .ok script' ∧
      splitLines script' = front ++ (indentation l.text ++ c.toLine) :: l.text :: back := by
  refine ⟨joinLines (front ++ [indentation l.text ++ c.toLine, l.text] ++ back), ?_, ?_⟩
  · rw [insert, if_neg (Nat.ne_of_lt h.rank_lt), h.commandLine_eq]
    simp only [mapLines]
    rw [h.lines_eq, h.index_eq, insertIdx_length_append, List.append_assoc]
    rfl
  · rw [h.splitLines_joinLines, List.append_assoc]
    · rfl
    · simp [h.newline_not_mem_indentation, hc, h.newline_not_mem_text]

/-- A command that is removed leaves the other lines. -/
theorem Placed.exists_remove (h : Placed lang script rank l front back) :
    ∃ script', remove lang script rank = .ok script' ∧ splitLines script' = front ++ back := by
  refine ⟨joinLines (front ++ [] ++ back), ?_, ?_⟩
  · rw [remove, h.commandLine_eq]
    simp only [mapLines]
    rw [h.lines_eq, h.index_eq, eraseIdx_length_append, List.append_nil]
  · rw [h.splitLines_joinLines (by simp), List.append_nil]

/-- Another command line in place of the command line leaves everything else where it is. -/
theorem Placed.set (h : Placed lang script rank l front back) {text : List Char} {k : Keyword}
    (hcmd : IsCommandText lang text k) (hnewline : '\n' ∉ text) :
    Placed lang (joinLines (front ++ text :: back)) rank ⟨l.index, text, k⟩ front back where
  lines_eq := by
    have hlines := h.splitLines_joinLines (List.forall_mem_singleton.2 hnewline)
    rw [List.append_assoc] at hlines
    exact hlines
  index_eq := h.index_eq
  rank_eq := h.rank_eq
  marker := h.marker
  command := hcmd

end Placed

/-! ## Two command lines -/

/-- The command lines `l` and `m` of a script, which have given ranks, stand behind the lines
`front` and around the lines `mid`. -/
structure PlacedPair (lang : Language) (script : List Char) (rank rank' : Nat) (l m : CommandLine)
    (front mid back : List (List Char)) : Prop where
  lines_eq : splitLines script = front ++ l.text :: (mid ++ m.text :: back)
  index_eq : l.index = front.length
  index_eq' : m.index = front.length + 1 + mid.length
  rank_eq : (commandsAmong lang false 0 front).length = rank
  rank_eq' : rank + 1 + (commandsAmong lang true (front.length + 1) mid).length = rank'
  marker : anyMarker lang front = true
  command : IsCommandText lang l.text l.keyword
  command' : IsCommandText lang m.text m.keyword

section PlacedPair

variable {rank rank' : Nat} {l m : CommandLine} {front mid back : List (List Char)}

theorem exists_placedPair (hl : (commandLines lang script)[rank]? = some l)
    (hm : (commandLines lang script)[rank']? = some m) (h : rank < rank') :
    ∃ front mid back, PlacedPair lang script rank rank' l m front mid back := by
  obtain ⟨front, rest, hp⟩ := exists_placed lang hl
  have hlen := hp.rank_eq
  -- the lower command line is found behind the upper one
  rw [hp.commandLines_eq, List.getElem?_append_right (by omega), hlen] at hm
  obtain ⟨n, rfl⟩ : ∃ n, rank' = rank + 1 + n := ⟨rank' - rank - 1, by omega⟩
  have hsub : rank + 1 + n - rank = n + 1 := by omega
  rw [hsub, List.getElem?_cons_succ] at hm
  obtain ⟨mid, back, rfl, hidx, hrank, -, hcmd⟩ := exists_of_getElem?_commandsAmong lang hm
  exact ⟨front, mid, back, hp.lines_eq, hp.index_eq, hidx, hp.rank_eq, by rw [hrank], hp.marker,
    hp.command, hcmd⟩

theorem PlacedPair.placed (h : PlacedPair lang script rank rank' l m front mid back) :
    Placed lang script rank l front (mid ++ m.text :: back) :=
  ⟨h.lines_eq, h.index_eq, h.rank_eq, h.marker, h.command⟩

theorem PlacedPair.commandLines_eq
    (h : PlacedPair lang script rank rank' l m front mid back) :
    commandLines lang script =
      commandsAmong lang false 0 front ++
        l :: (commandsAmong lang true (front.length + 1) mid ++
          m :: commandsAmong lang true (front.length + 1 + mid.length + 1) back) := by
  have hm : (⟨front.length + 1 + mid.length, m.text, m.keyword⟩ : CommandLine) = m := by
    rw [← h.index_eq']
  rw [h.placed.commandLines_eq, commandsAmong_append_command lang _ back rfl h.command', hm]

theorem PlacedPair.getElem?_eq (h : PlacedPair lang script rank rank' l m front mid back) :
    (commandLines lang script)[rank']? = some m := by
  have hrank := h.rank_eq
  have hrank' := h.rank_eq'
  rw [h.commandLines_eq, List.getElem?_append_right (by omega), hrank, ← hrank']
  have hsub : ∀ n, rank + 1 + n - rank = n + 1 := fun n => by omega
  rw [hsub, List.getElem?_cons_succ, List.getElem?_append_right (Nat.le_refl _), Nat.sub_self,
    List.getElem?_cons_zero]

theorem PlacedPair.rank_lt (h : PlacedPair lang script rank rank' l m front mid back) :
    rank < rank' := by
  have hrank' := h.rank_eq'
  omega

theorem PlacedPair.newline_not_mem (h : PlacedPair lang script rank rank' l m front mid back) :
    ∀ line ∈ front ++ l.text :: (mid ++ m.text :: back), '\n' ∉ line := by
  intro line hline
  rw [← h.lines_eq] at hline
  exact not_mem_of_mem_splitLines hline

/-- There is nothing to move if both indices are the same, or if one has no command. -/
theorem reorder_eq_none {start target : Nat}
    (h : start = target ∨ count lang script ≤ start ∨ count lang script ≤ target) :
    reorder lang script start target = none := by
  rw [count] at h
  simp only [reorder]
  split
  · rfl
  · next moved hmoved =>
    have hstart := (List.getElem?_eq_some_iff.1 hmoved).1
    rw [if_pos (by omega)]

/-- A command line that moves down stands in front of the lower command line. -/
theorem PlacedPair.exists_reorder_down
    (h : PlacedPair lang script rank rank' l m front mid back) :
    ∃ script', reorder lang script rank rank' = some script' ∧
      splitLines script' = front ++ mid ++ l.text :: m.text :: back := by
  have hlt := h.rank_lt
  have hcount := (List.getElem?_eq_some_iff.1 h.getElem?_eq).1
  refine ⟨joinLines (front ++ mid ++ l.text :: m.text :: back), ?_, ?_⟩
  -- without the moved line, the target has one rank and one line less
  · have hnext : ((commandLines lang script).eraseIdx rank)[rank' - 1]? = some m := by
      rw [List.getElem?_eraseIdx_of_ge (by omega), Nat.sub_add_cancel (by omega), h.getElem?_eq]
    have hplace : CommandLine.indexWithout l.index m = (front ++ mid).length := by
      rw [CommandLine.indexWithout, h.index_eq, h.index_eq', List.length_append, if_pos (by omega)]
      omega
    simp only [reorder, h.placed.getElem?]
    rw [if_neg (by omega), if_pos hlt, hnext, Option.map_some, Option.getD_some, hplace, mapLines,
      h.lines_eq, h.index_eq, eraseIdx_length_append, ← List.append_assoc, insertIdx_length_append]
  · refine splitLines_joinLines (by simp) fun line hline => h.newline_not_mem line ?_
    simp only [List.mem_append, List.mem_cons] at hline ⊢
    grind

/-- A command line that moves up stands in front of the upper command line. -/
theorem PlacedPair.exists_reorder_up
    (h : PlacedPair lang script rank rank' l m front mid back) :
    ∃ script', reorder lang script rank' rank = some script' ∧
      splitLines script' = front ++ m.text :: l.text :: (mid ++ back) := by
  have hlt := h.rank_lt
  have hcount := (List.getElem?_eq_some_iff.1 h.placed.getElem?).1
  refine ⟨joinLines (front ++ m.text :: l.text :: (mid ++ back)), ?_, ?_⟩
  -- the target stands above the moved line and stays where it is
  · have hnext : ((commandLines lang script).eraseIdx rank')[rank]? = some l := by
      rw [List.getElem?_eraseIdx_of_lt hlt, h.placed.getElem?]
    have hplace : CommandLine.indexWithout m.index l = front.length := by
      rw [CommandLine.indexWithout, h.index_eq, h.index_eq', if_neg (by omega)]
    have hlines : front ++ l.text :: (mid ++ m.text :: back) =
        (front ++ l.text :: mid) ++ m.text :: back := by
      rw [List.append_assoc, List.cons_append]
    have hindex : m.index = (front ++ l.text :: mid).length := by
      rw [h.index_eq', List.length_append, List.length_cons]
      omega
    simp only [reorder, h.getElem?_eq]
    rw [if_neg (by omega), if_neg (by omega), hnext, Option.map_some, Option.getD_some, hplace,
      mapLines, h.lines_eq, hlines, hindex, eraseIdx_length_append, List.append_assoc,
      insertIdx_length_append]
    rfl
  · refine splitLines_joinLines (by simp) fun line hline => h.newline_not_mem line ?_
    simp only [List.mem_append, List.mem_cons] at hline ⊢
    grind

end PlacedPair

/-! ## Appended commands -/

/-- What a script is before a command is appended: it has a marker. -/
def withMarker (lang : Language) (script : List Char) : List Char :=
  if hasMarker lang script then script else pushLine script lang.marker

theorem append_eq (c : Command) :
    append lang script c =
      pushLine (withMarker lang script) (appendIndent (commandLines lang script) ++ c.toLine) := rfl

theorem allBlank_appendIndent (lines : List CommandLine) :
    allBlank (appendIndent lines) = true ∧ '\n' ∉ appendIndent lines := by
  unfold appendIndent
  split
  · exact ⟨rfl, List.not_mem_nil⟩
  · split <;> exact ⟨by decide, by decide⟩

theorem ne_nil_of_hasMarker (h : hasMarker lang script = true) : script ≠ [] := by
  rintro rfl
  rw [hasMarker_eq, splitLines, anyMarker_empty_line] at h
  exact Bool.false_ne_true h

/-- The marker that is added for the first command, and nothing else. -/
theorem exists_withMarker (script : List Char) (hmarker : lang.isMarker (trim lang.marker) = true)
    (hnewline : '\n' ∉ lang.marker) :
    hasMarker lang (withMarker lang script) = true ∧
      commandLines lang (withMarker lang script) = commandLines lang script := by
  by_cases hm : hasMarker lang script = true
  · rw [withMarker, if_pos hm]
    exact ⟨hm, rfl⟩
  · rw [withMarker, if_neg hm]
    rw [Bool.not_eq_true] at hm
    -- without a marker there is no command, and the new marker comes last
    have hnone : commandLines lang script = [] :=
      commandsAmong_of_anyMarker_eq_false lang 0 hm
    have hhead : ∀ inSteps index, commandAt? lang inSteps index lang.marker = none := by
      intro inSteps index
      rw [commandAt?, if_pos hmarker]
    by_cases hs : script = []
    · rw [hnone, hs, hasMarker_eq, commandLines_eq, splitLines_pushLine_nil hnewline,
        anyMarker_cons, hmarker, commandsAmong_cons, hhead]
      exact ⟨rfl, rfl⟩
    · obtain ⟨body, tail, hlines, htail, hpush⟩ := exists_splitLines_pushLine hs hnewline
      have hbody : anyMarker lang body = false := by
        rw [hasMarker_eq, hlines, anyMarker_append] at hm
        exact (Bool.or_eq_false_iff.1 hm).1
      have hrest := fun inSteps index => commandsAmong_tail lang inSteps index htail
      constructor
      · rw [hasMarker_eq, hpush, anyMarker_append, anyMarker_cons, hmarker]
        simp
      · rw [hnone, commandLines_eq, hpush, commandsAmong_append,
          commandsAmong_of_anyMarker_eq_false lang 0 hbody, commandsAmong_cons, hhead, hrest]
        rfl

/-- A line that is pushed to a script with a marker stands behind all commands. -/
theorem exists_pushed {line : List Char} (hm : hasMarker lang script = true) (hline : '\n' ∉ line) :
    ∃ body tail, splitLines script = body ++ tail ∧ anyMarker lang body = true ∧
      commandsAmong lang false 0 body = commandLines lang script ∧
      (∀ index, commandsAmong lang true index tail = []) ∧
      splitLines (pushLine script line) = body ++ line :: tail := by
  obtain ⟨body, tail, hlines, htail, hpush⟩ :=
    exists_splitLines_pushLine (ne_nil_of_hasMarker hm) hline
  have hrest := fun inSteps index => commandsAmong_tail lang inSteps index htail
  refine ⟨body, tail, hlines, ?_, ?_, hrest true, hpush⟩
  · rw [hasMarker_eq, hlines, anyMarker_append, anyMarker_tail lang htail, Bool.or_false] at hm
    exact hm
  · rw [commandLines_eq, hlines, commandsAmong_append, hrest, List.append_nil]

/-- A command that is appended stands behind the marker and all commands. -/
theorem exists_append (lang : Language) (script : List Char)
    (hmarker : lang.isMarker (trim lang.marker) = true) (hnewline : '\n' ∉ lang.marker)
    {c : Command} (hc : '\n' ∉ c.toLine) :
    ∃ body tail indent, allBlank indent = true ∧ anyMarker lang body = true ∧
      commandsAmong lang false 0 body = commandLines lang script ∧
      (∀ index, commandsAmong lang true index tail = []) ∧
      splitLines (append lang script c) = body ++ (indent ++ c.toLine) :: tail := by
  obtain ⟨hm, hcommands⟩ := exists_withMarker script hmarker hnewline
  obtain ⟨hblank, hind⟩ := allBlank_appendIndent (commandLines lang script)
  have hline : '\n' ∉ appendIndent (commandLines lang script) ++ c.toLine := by
    simp [hind, hc]
  obtain ⟨body, tail, -, hbody, hamong, hrest, hpush⟩ := exists_pushed hm hline
  exact ⟨body, tail, _, hblank, hbody, hamong.trans hcommands, hrest, hpush⟩

end StepScript.Script
