import StepScript.Proofs.Lines

/-!
# Where the command lines stand

The command lines among some lines hang on the lines one by one, and on whether a marker came
before. So a list of lines can be cut anywhere, and a command line of a script can be found between
the lines in front of it and the lines behind it.

Main statements:

* `commandsAmong_append` — the command lines of lines that are cut in two;
* `exists_of_getElem?_commandsAmong` — a command line of a given rank stands between lines of which
  the front ones hold that many commands;
* `commandsAmong_append_command` — the command lines of lines with a command between them.
-/

set_option autoImplicit false

namespace StepScript

open Text

def CommandLine.shift (n : Nat) (l : CommandLine) : CommandLine :=
  { l with index := l.index + n }

namespace Script

variable (lang : Language)

/-! ## Lines one by one -/

/-- Whether some of the lines is a marker. -/
def anyMarker (lines : List (List Char)) : Bool :=
  lines.any fun line => lang.isMarker (trim line)

/-- The command lines among some lines, the first of which has the given index. -/
def commandsAmong (inSteps : Bool) (index : Nat) (lines : List (List Char)) : List CommandLine :=
  commandLinesFrom index (classifyFrom lang inSteps lines)

/-- A text that is a command line with a given keyword wherever it stands among the steps. -/
structure IsCommandText (text : List Char) (k : Keyword) : Prop where
  not_marker : lang.isMarker (trim text) = false
  stepClass_eq : stepClass lang (trim text) = .command k

/-- The command line that a single line is, if it is one. -/
def commandAt? (inSteps : Bool) (index : Nat) (line : List Char) : Option CommandLine :=
  if lang.isMarker (trim line) then none
  else if inSteps then
    match stepClass lang (trim line) with
    | .command k => some ⟨index, line, k⟩
    | _ => none
  else none

variable {lang}

theorem commandAt?_of_isCommandText {text : List Char} {k : Keyword} (index : Nat)
    (h : IsCommandText lang text k) : commandAt? lang true index text = some ⟨index, text, k⟩ := by
  simp [commandAt?, h.not_marker, h.stepClass_eq]

theorem eq_of_commandAt? {inSteps : Bool} {index : Nat} {line : List Char} {l : CommandLine}
    (h : commandAt? lang inSteps index line = some l) :
    inSteps = true ∧ l.text = line ∧ l.index = index ∧ IsCommandText lang l.text l.keyword := by
  unfold commandAt? at h
  split at h
  · simp at h
  · next hm =>
    split at h
    · next hs =>
      split at h
      · next k hk =>
        obtain rfl := Option.some.inj h
        exact ⟨hs, rfl, rfl, by simpa using hm, hk⟩
      · simp at h
    · simp at h

variable (lang)

/-- Lines are looked at one after another. -/
theorem commandsAmong_cons (inSteps : Bool) (index : Nat) (line : List Char)
    (rest : List (List Char)) :
    commandsAmong lang inSteps index (line :: rest) =
      (commandAt? lang inSteps index line).toList ++
        commandsAmong lang (inSteps || lang.isMarker (trim line)) (index + 1) rest := by
  by_cases hm : lang.isMarker (trim line) = true
  · simp [commandsAmong, commandAt?, classifyFrom, hm, commandLinesFrom]
  · simp only [Bool.not_eq_true] at hm
    cases inSteps with
    | false => simp [commandsAmong, commandAt?, classifyFrom, hm, commandLinesFrom]
    | true =>
        cases hc : stepClass lang (trim line) <;>
          simp [commandsAmong, commandAt?, classifyFrom, hm, commandLinesFrom, hc]

@[simp] theorem commandsAmong_nil (inSteps : Bool) (index : Nat) :
    commandsAmong lang inSteps index [] = [] := rfl

theorem anyMarker_cons (line : List Char) (rest : List (List Char)) :
    anyMarker lang (line :: rest) = (lang.isMarker (trim line) || anyMarker lang rest) := rfl

theorem anyMarker_append (xs ys : List (List Char)) :
    anyMarker lang (xs ++ ys) = (anyMarker lang xs || anyMarker lang ys) := by
  simp [anyMarker]

theorem hasMarker_eq (script : List Char) :
    hasMarker lang script = anyMarker lang (splitLines script) := rfl

theorem commandLines_eq (script : List Char) :
    commandLines lang script = commandsAmong lang false 0 (splitLines script) := rfl

/-! ## Cutting lines -/

/-- The command lines of lines that are cut in two. -/
theorem commandsAmong_append (inSteps : Bool) (index : Nat) (xs ys : List (List Char)) :
    commandsAmong lang inSteps index (xs ++ ys) =
      commandsAmong lang inSteps index xs ++
        commandsAmong lang (inSteps || anyMarker lang xs) (index + xs.length) ys := by
  induction xs generalizing inSteps index with
  | nil => simp [anyMarker]
  | cons line xs ih =>
      have hlen : index + 1 + xs.length = index + (line :: xs).length := by
        rw [List.length_cons]
        omega
      rw [List.cons_append, commandsAmong_cons, commandsAmong_cons, ih, List.append_assoc, hlen,
        anyMarker_cons, Bool.or_assoc]

/-- In front of the first marker nothing is a command. -/
theorem commandsAmong_of_anyMarker_eq_false (index : Nat) {lines : List (List Char)}
    (h : anyMarker lang lines = false) : commandsAmong lang false index lines = [] := by
  induction lines generalizing index with
  | nil => rfl
  | cons line rest ih =>
      rw [anyMarker_cons, Bool.or_eq_false_iff] at h
      rw [commandsAmong_cons, h.1, Bool.false_or, ih _ h.2]
      simp [commandAt?]

theorem isMarker_nil : lang.isMarker [] = false := by
  cases hk : lang.stepsKeyword with
  | nil => simp [Language.isMarker, hk, after?, trimStart]
  | cons c s => simp [Language.isMarker, hk, after?]

/-- An empty last line is no command and no marker. -/
theorem commandsAmong_empty_line (inSteps : Bool) (index : Nat) :
    commandsAmong lang inSteps index [[]] = [] := by
  have htrim : trim [] = [] := rfl
  rw [commandsAmong_cons, commandsAmong_nil, List.append_nil, commandAt?, htrim, isMarker_nil]
  cases inSteps <;> simp [stepClass]

theorem anyMarker_empty_line : anyMarker lang [[]] = false := by
  have htrim : trim [] = [] := rfl
  simp [anyMarker, htrim, isMarker_nil]

/-- Nothing stands on what follows the last line feed of a text. -/
theorem commandsAmong_tail (inSteps : Bool) (index : Nat) {tail : List (List Char)}
    (h : tail = [] ∨ tail = [[]]) : commandsAmong lang inSteps index tail = [] := by
  rcases h with rfl | rfl
  · rfl
  · exact commandsAmong_empty_line lang inSteps index

theorem anyMarker_tail {tail : List (List Char)} (h : tail = [] ∨ tail = [[]]) :
    anyMarker lang tail = false := by
  rcases h with rfl | rfl
  · rfl
  · exact anyMarker_empty_line lang

/-- The command lines of lines with a command between them. -/
theorem commandsAmong_append_command {inSteps : Bool} {front : List (List Char)}
    {text : List Char} {k : Keyword} (index : Nat) (back : List (List Char))
    (hm : (inSteps || anyMarker lang front) = true) (h : IsCommandText lang text k) :
    commandsAmong lang inSteps index (front ++ text :: back) =
      commandsAmong lang inSteps index front ++
        ⟨index + front.length, text, k⟩ ::
          commandsAmong lang true (index + front.length + 1) back := by
  rw [commandsAmong_append, hm, commandsAmong_cons, commandAt?_of_isCommandText _ h]
  simp

/-! ## Indices -/

/-- What a command line says does not hang on how lines are counted. -/
theorem commandsAmong_add (inSteps : Bool) (index n : Nat) (lines : List (List Char)) :
    commandsAmong lang inSteps (index + n) lines =
      (commandsAmong lang inSteps index lines).map (CommandLine.shift n) := by
  induction lines generalizing inSteps index with
  | nil => rfl
  | cons line rest ih =>
      have hidx : index + n + 1 = index + 1 + n := by omega
      rw [commandsAmong_cons, commandsAmong_cons, List.map_append, hidx, ih]
      congr 1
      unfold commandAt?
      split
      · rfl
      · split
        · split <;> rfl
        · rfl

/-- A command line of a given rank stands between lines of which the front ones hold that many
commands and a marker. -/
theorem exists_of_getElem?_commandsAmong {inSteps : Bool} {index i : Nat} {l : CommandLine}
    {lines : List (List Char)} (h : (commandsAmong lang inSteps index lines)[i]? = some l) :
    ∃ front back, lines = front ++ l.text :: back ∧ l.index = index + front.length ∧
      (commandsAmong lang inSteps index front).length = i ∧
      (inSteps || anyMarker lang front) = true ∧ IsCommandText lang l.text l.keyword := by
  induction lines generalizing inSteps index i with
  | nil => simp at h
  | cons line rest ih =>
      rw [commandsAmong_cons] at h
      -- the head line takes the first rank if it is a command, and no rank otherwise
      cases hc : commandAt? lang inSteps index line with
      | some head =>
          rw [hc] at h
          cases i with
          | zero =>
              obtain rfl : head = l := by simpa using h
              obtain ⟨hs, rfl, hi, hcmd⟩ := eq_of_commandAt? hc
              exact ⟨[], rest, rfl, by simpa using hi, rfl, by simp [hs], hcmd⟩
          | succ i =>
              obtain ⟨front, back, rfl, hi, hrank, hm, hcmd⟩ := ih (by simpa using h)
              refine ⟨line :: front, back, rfl, ?_, ?_, ?_, hcmd⟩
              · rw [hi, List.length_cons]
                omega
              · rw [commandsAmong_cons, hc, List.length_append, hrank]
                simp [Nat.add_comm]
              · rw [anyMarker_cons, ← Bool.or_assoc]
                exact hm
      | none =>
          rw [hc] at h
          obtain ⟨front, back, rfl, hi, hrank, hm, hcmd⟩ := ih (by simpa using h)
          refine ⟨line :: front, back, rfl, ?_, ?_, ?_, hcmd⟩
          · rw [hi, List.length_cons]
            omega
          · rw [commandsAmong_cons, hc, List.length_append, hrank]
            simp
          · rw [anyMarker_cons, ← Bool.or_assoc]
            exact hm

/-! ## Command lines of a script -/

/-- The command line `l` of a script, which has a given rank among its commands, stands between the
lines `front` and `back`. -/
structure Placed (script : List Char) (rank : Nat) (l : CommandLine)
    (front back : List (List Char)) : Prop where
  lines_eq : splitLines script = front ++ l.text :: back
  index_eq : l.index = front.length
  rank_eq : (commandsAmong lang false 0 front).length = rank
  marker : anyMarker lang front = true
  command : IsCommandText lang l.text l.keyword

theorem exists_placed {script : List Char} {rank : Nat} {l : CommandLine}
    (h : (commandLines lang script)[rank]? = some l) :
    ∃ front back, Placed lang script rank l front back := by
  obtain ⟨front, back, hlines, hidx, hrank, hm, hcmd⟩ := exists_of_getElem?_commandsAmong lang h
  exact ⟨front, back, hlines, by simpa using hidx, hrank, by simpa using hm, hcmd⟩

variable {lang}

/-- The command lines of a script around one of them. -/
theorem Placed.commandLines_eq {script : List Char} {rank : Nat} {l : CommandLine}
    {front back : List (List Char)} (h : Placed lang script rank l front back) :
    commandLines lang script =
      commandsAmong lang false 0 front ++
        l :: commandsAmong lang true (front.length + 1) back := by
  have hm : (false || anyMarker lang front) = true := by simpa using h.marker
  rw [Script.commandLines_eq, h.lines_eq, commandsAmong_append_command lang 0 back hm h.command]
  have hl : (⟨0 + front.length, l.text, l.keyword⟩ : CommandLine) = l := by
    rw [Nat.zero_add, ← h.index_eq]
  rw [hl, Nat.zero_add]

end Script

end StepScript
