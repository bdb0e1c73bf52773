import StepScript.Proofs.LineEdits
import StepScript.Text.Size

/-!
# A command line that is moved

A move takes the line of one command and puts it in front of the line of another one. All lines keep
their texts and their classes, since a command line opens no steps section and closes none; so every
line that is no command line stays where it is among the others of its kind. This holds in every
language.

Main statements:

* `PlacedPair.movedInFront_down`, `PlacedPair.movedInFront_up` — what a move does to the classified
  lines;
* `movesOneLine_reorder` — when there is a move, and all that it changes.
-/

set_option autoImplicit false

namespace StepScript

open Text

/-! ## Moved items -/

/-- The item `x` with the index `i` of a list is taken out and put right in front of the item `y`
with the index `j`, which gives the second list. -/
inductive MovedInFront {α : Type} (x y : α) : Nat → Nat → List α → List α → Prop
  /-- The item comes from above. -/
  | down (front mid back : List α) :
    MovedInFront x y front.length (front.length + 1 + mid.length)
      (front ++ x :: (mid ++ y :: back)) (front ++ mid ++ x :: y :: back)
  /-- The item comes from below. -/
  | up (front mid back : List α) :
    MovedInFront x y (front.length + 1 + mid.length) front.length
      (front ++ y :: (mid ++ x :: back)) (front ++ x :: y :: (mid ++ back))

namespace MovedInFront

variable {α β : Type} {x y : α} {i j : Nat} {xs ys : List α}

theorem map (f : α → β) (h : MovedInFront x y i j xs ys) :
    MovedInFront (f x) (f y) i j (xs.map f) (ys.map f) := by
  cases h with
  | down front mid back =>
      have hmoved := down (x := f x) (y := f y) (front.map f) (mid.map f) (back.map f)
      simpa using hmoved
  | up front mid back =>
      have hmoved := up (x := f x) (y := f y) (front.map f) (mid.map f) (back.map f)
      simpa using hmoved

/-- A move adds no item and loses none. -/
theorem perm (h : MovedInFront x y i j xs ys) : ys.Perm xs := by
  cases h with
  | down front mid back =>
      rw [List.append_assoc]
      exact List.perm_middle.append_left front
  | up front mid back =>
      refine List.Perm.append_left front ?_
      exact (List.Perm.swap y x _).trans (List.perm_middle.symm.cons y)

/-- The items of which the moved one is none keep their order. -/
theorem filter_eq {p : α → Bool} (h : MovedInFront x y i j xs ys) (hx : p x = false) :
    ys.filter p = xs.filter p := by
  have hskip : ∀ zs, (x :: zs).filter p = zs.filter p := fun zs =>
    List.filter_cons_of_neg (by simp [hx])
  cases h with
  | down front mid back =>
      rw [List.filter_append, List.filter_append, hskip, List.filter_append, hskip,
        List.filter_append, List.append_assoc]
  | up front mid back =>
      have hback : (y :: (mid ++ back)).filter p = (y :: (mid ++ x :: back)).filter p := by
        rw [← List.cons_append, List.filter_append, ← List.cons_append, List.filter_append, hskip]
      rw [List.filter_append, hskip, List.filter_append, hback]

end MovedInFront

/-! ## Sizes -/

/-- The same characters in another order have the same size. -/
theorem Text.byteSize_perm {s t : List Char} (h : s.Perm t) : byteSize s = byteSize t := by
  induction h with
  | nil => rfl
  | cons c _ ih => rw [byteSize, byteSize, ih]
  | swap c d s =>
      rw [byteSize, byteSize, byteSize, byteSize]
      omega
  | trans _ _ ih ih' => exact ih.trans ih'

/-- Lines in another order make up a text of the same size. -/
theorem Text.byteSize_eq_of_perm {s t : List Char} (h : (splitLines s).Perm (splitLines t)) :
    byteSize s = byteSize t := by
  have hclosed := byteSize_perm (h.flatMap_right fun line => line ++ ['\n'])
  rw [← closedLines, ← closedLines, closedLines_splitLines, closedLines_splitLines,
    byteSize_append, byteSize_append] at hclosed
  omega

/-! ## Classified lines -/

def LineClass.isCommand : LineClass → Bool
  | .command _ => true
  | _ => false

def CommandLine.classified (l : CommandLine) : List Char × LineClass :=
  (l.text, .command l.keyword)

namespace Script

variable {lang : Language} {script : List Char}

theorem length_classifyFrom (lang : Language) (inSteps : Bool) (lines : List (List Char)) :
    (classifyFrom lang inSteps lines).length = lines.length := by
  have htexts := congrArg List.length (texts_classifyFrom lang inSteps lines)
  rwa [List.length_map] at htexts

/-- The classes of lines that are cut in two. -/
theorem classifyFrom_append (inSteps : Bool) (xs ys : List (List Char)) :
    classifyFrom lang inSteps (xs ++ ys) =
      classifyFrom lang inSteps xs ++ classifyFrom lang (inSteps || anyMarker lang xs) ys := by
  induction xs generalizing inSteps with
  | nil => simp [classifyFrom, anyMarker]
  | cons line xs ih =>
      rw [List.cons_append, anyMarker_cons]
      by_cases hm : lang.isMarker (trim line) = true
      · simp [classifyFrom, hm, ih]
      · rw [Bool.not_eq_true] at hm
        cases inSteps <;> simp [classifyFrom, hm, ih]

/-- Behind a marker, lines are steps. -/
theorem classifyFrom_front {front : List (List Char)} (hfront : anyMarker lang front = true)
    (rest : List (List Char)) :
    classifyFrom lang false (front ++ rest) =
      classifyFrom lang false front ++ classifyFrom lang true rest := by
  rw [classifyFrom_append, hfront, Bool.or_true]

/-- A command line behind a marker has the class of a command. -/
theorem classifyFrom_command {text : List Char} {k : Keyword} (rest : List (List Char))
    (h : IsCommandText lang text k) :
    classifyFrom lang true (text :: rest) = (text, .command k) :: classifyFrom lang true rest := by
  rw [classifyFrom, h.not_marker, h.stepClass_eq]
  rfl

theorem length_commandLinesFrom (index : Nat) (lines : List (List Char × LineClass)) :
    (commandLinesFrom index lines).length = lines.countP fun line => line.2.isCommand := by
  induction lines generalizing index with
  | nil => rfl
  | cons line rest ih =>
      obtain ⟨text, cls⟩ := line
      cases cls <;> simp [commandLinesFrom, LineClass.isCommand, ih]

/-- Commands are counted by their classes. -/
theorem count_eq_countP (script : List Char) :
    count lang script = (classify lang script).countP fun line => line.2.isCommand :=
  length_commandLinesFrom 0 _

/-! ## What a move does -/

section PlacedPair

variable {rank rank' : Nat} {l m : CommandLine} {front mid back : List (List Char)}

theorem PlacedPair.classify_eq (h : PlacedPair lang script rank rank' l m front mid back) :
    classify lang script = classifyFrom lang false front ++ l.classified ::
      (classifyFrom lang true mid ++ m.classified :: classifyFrom lang true back) := by
  rw [classify, h.lines_eq, classifyFrom_front h.marker, classifyFrom_command _ h.command,
    classifyFrom_append, Bool.true_or, classifyFrom_command _ h.command']
  rfl

/-- A command line that moves down takes its class along, and leaves all others their classes. -/
theorem PlacedPair.movedInFront_down {script' : List Char}
    (h : PlacedPair lang script rank rank' l m front mid back)
    (hlines : splitLines script' = front ++ mid ++ l.text :: m.text :: back) :
    MovedInFront l.classified m.classified l.index m.index
      (classify lang script) (classify lang script') := by
  have hmoved : classify lang script' =
      classifyFrom lang false front ++ classifyFrom lang true mid ++
        l.classified :: m.classified :: classifyFrom lang true back := by
    rw [classify, hlines, List.append_assoc, classifyFrom_front h.marker, classifyFrom_append,
      Bool.true_or, classifyFrom_command _ h.command, classifyFrom_command _ h.command',
      List.append_assoc]
    rfl
  rw [h.classify_eq, hmoved, h.index_eq, h.index_eq',
    ← length_classifyFrom lang false front, ← length_classifyFrom lang true mid]
  exact .down _ _ _

/-- So does one that moves up. -/
theorem PlacedPair.movedInFront_up {script' : List Char}
    (h : PlacedPair lang script rank rank' l m front mid back)
    (hlines : splitLines script' = front ++ m.text :: l.text :: (mid ++ back)) :
    MovedInFront m.classified l.classified m.index l.index
      (classify lang script) (classify lang script') := by
  have hmoved : classify lang script' = classifyFrom lang false front ++
      m.classified :: l.classified ::
        (classifyFrom lang true mid ++ classifyFrom lang true back) := by
    rw [classify, hlines, classifyFrom_front h.marker, classifyFrom_command _ h.command',
      classifyFrom_command _ h.command, classifyFrom_append, Bool.true_or]
    rfl
  rw [h.classify_eq, hmoved, h.index_eq, h.index_eq',
    ← length_classifyFrom lang false front, ← length_classifyFrom lang true mid]
  exact .up _ _ _

end PlacedPair

/-- What the script `script'` is after the line of the command `l` was moved in front of the line of
the command `m`. -/
structure MovedLine (lang : Language) (script : List Char) (l m : CommandLine)
    (script' : List Char) : Prop where
  /-- The line is taken out and put in front of the other one, character by character. -/
  lines : MovedInFront l.text m.text l.index m.index (splitLines script) (splitLines script')
  /-- Every line has the class that it had. -/
  classes : MovedInFront l.classified m.classified l.index m.index
    (classify lang script) (classify lang script')
  /-- The lines that are no command lines are what they were, in the order in which they were. -/
  others_eq : (classify lang script').filter (fun line => !line.2.isCommand) =
    (classify lang script).filter fun line => !line.2.isCommand
  byteSize_eq : byteSize script' = byteSize script
  count_eq : count lang script' = count lang script

/-- All that a move changes follows from what it does to the classified lines. -/
theorem movedLine_of_classes {l m : CommandLine} {script' : List Char}
    (h : MovedInFront l.classified m.classified l.index m.index
      (classify lang script) (classify lang script')) : MovedLine lang script l m script' := by
  have hlines := h.map Prod.fst
  rw [texts_classify, texts_classify] at hlines
  refine ⟨hlines, h, h.filter_eq rfl, byteSize_eq_of_perm hlines.perm, ?_⟩
  rw [count_eq_countP, count_eq_countP]
  exact h.perm.countP_eq _

/-- A move between two commands of a script succeeds. -/
theorem exists_movedLine {start target : Nat} {l m : CommandLine} (hne : start ≠ target)
    (hl : (commandLines lang script)[start]? = some l)
    (hm : (commandLines lang script)[target]? = some m) :
    ∃ script', reorder lang script start target = some script' ∧
      MovedLine lang script l m script' := by
  rcases Nat.lt_or_gt_of_ne hne with hlt | hlt
  · obtain ⟨front, mid, back, hp⟩ := exists_placedPair hl hm hlt
    obtain ⟨script', hreorder, hlines⟩ := hp.exists_reorder_down
    exact ⟨script', hreorder, movedLine_of_classes (hp.movedInFront_down hlines)⟩
  · obtain ⟨front, mid, back, hp⟩ := exists_placedPair hm hl hlt
    obtain ⟨script', hreorder, hlines⟩ := hp.exists_reorder_up
    exact ⟨script', hreorder, movedLine_of_classes (hp.movedInFront_up hlines)⟩

/-- Without the item at one index, the item at another one is found where the move looks for it. -/
theorem getElem?_eraseIdx_target {α : Type} (items : List α) {start target : Nat}
    (hne : start ≠ target) :
    (items.eraseIdx start)[if start < target then target - 1 else target]? = items[target]? := by
  split
  · next hlt => rw [List.getElem?_eraseIdx_of_ge (by omega), Nat.sub_add_cancel (by omega)]
  · next hle => rw [List.getElem?_eraseIdx_of_lt (by omega)]

/-- What is promised of a move from one index to another. -/
structure MovesOneLine (lang : Language) (script : List Char) (start target : Nat) : Prop where
  /-- There is nothing to do exactly if both indices are the same, or one of them has no command. -/
  none_iff : reorder lang script start target = none ↔
    start = target ∨ count lang script ≤ start ∨ count lang script ≤ target
  /-- Otherwise the line of the one command is moved in front of that of the other. -/
  moved : ∀ script', reorder lang script start target = some script' →
    ∃ l m, (commandLines lang script)[start]? = some l ∧
      (commandLines lang script)[target]? = some m ∧ MovedLine lang script l m script'
  /-- Among the commands that are left, there always is one to put the line in front of: the one
  that had the target index. So the line never goes back to its own place for want of a target. -/
  target_found : ∀ script', reorder lang script start target = some script' →
    ∃ m, (commandLines lang script)[target]? = some m ∧ ((commandLines lang script).eraseIdx start)[
      if start < target then target - 1 else target]? = some m

/-- **A move changes the place of one line, and nothing else.** -/
theorem movesOneLine_reorder (lang : Language) (script : List Char) (start target : Nat) :
    MovesOneLine lang script start target := by
  by_cases h : start = target ∨ count lang script ≤ start ∨ count lang script ≤ target
  · have hnone := reorder_eq_none h
    refine ⟨⟨fun _ => h, fun _ => hnone⟩, ?_, ?_⟩ <;> simp [hnone]
  · have hne : start ≠ target := fun heq => h (Or.inl heq)
    have hl := List.getElem?_eq_getElem (l := commandLines lang script) (i := start)
      (by rw [count] at h; omega)
    have hm := List.getElem?_eq_getElem (l := commandLines lang script) (i := target)
      (by rw [count] at h; omega)
    obtain ⟨script', hreorder, hmoved⟩ := exists_movedLine hne hl hm
    refine ⟨⟨fun hnone => ?_, fun h' => absurd h' h⟩, fun s hs => ?_, fun _ _ => ?_⟩
    · rw [hreorder] at hnone
      cases hnone
    · rw [hreorder] at hs
      cases hs
      exact ⟨_, _, hl, hm, hmoved⟩
    · exact ⟨_, hm, (getElem?_eraseIdx_target _ hne).trans hm⟩

/-- A line that moves down passes the comment in front of its target. -/
example : reorder .standard "步骤:\n\t等待  [ 1 ]\n点击 [a]\n# c\n返回\n".toList 0 2 =
    some "步骤:\n点击 [a]\n# c\n\t等待  [ 1 ]\n返回\n".toList := by
  decide

end Script

end StepScript
