import StepScript.Proofs.DroppedBlock
import StepScript.Proofs.Splices

/-!
# The highlight after an edit

The highlight is kept as the number of a line, and when an edit is committed it is put on that line
again, if a command stands there. The edit may have moved commands to other lines. So the highlight
keeps to its command if the edit leaves the line of the command where it is, and else only by being
given up; otherwise it is found on another command.

Main statements:

* `EditorEdit.Splices.carry_eq_self_iff` — which edits leave the line of a command where it is;
* `Editor.exists_highlightAfter` — where the highlight is after an edit, and when it keeps to its
  command.
-/

set_option autoImplicit false

namespace StepScript

open Text

/-! ## Where commands stand -/

namespace Script

variable {lang : Language} {script : List Char} {i j : Nat} {l m : CommandLine}

theorem text_ne_nil_of_getElem? (h : (commandLines lang script)[i]? = some l) : l.text ≠ [] := by
  obtain ⟨front, back, hp⟩ := exists_placed lang h
  obtain ⟨rest, htrim, -⟩ := hp.command.exists_rest
  intro hnil
  rw [hnil, show trim [] = [] from rfl] at htrim
  exact Keyword.spelling_ne_nil _ (List.append_eq_nil_iff.1 htrim.symm).1

/-- Commands stand in the order of their indices. -/
theorem index_lt_index (hl : (commandLines lang script)[i]? = some l)
    (hm : (commandLines lang script)[j]? = some m) (h : i < j) : l.index < m.index := by
  obtain ⟨front, mid, back, hp⟩ := exists_placedPair hl hm h
  rw [hp.index_eq, hp.index_eq']
  omega

theorem index_lt_iff (hl : (commandLines lang script)[i]? = some l)
    (hm : (commandLines lang script)[j]? = some m) : l.index < m.index ↔ i < j := by
  refine ⟨fun h => ?_, index_lt_index hl hm⟩
  rcases Nat.lt_trichotomy i j with hlt | rfl | hgt
  · exact hlt
  · obtain rfl : l = m := Option.some.inj (hl.symm.trans hm)
    exact absurd h (Nat.lt_irrefl _)
  · exact absurd h (Nat.lt_asymm (index_lt_index hm hl hgt))

end Script

/-! ## Lines that are written -/

/-- A text makes up one line exactly if it holds no line end of either kind. -/
theorem length_splitLines_normalize_eq_one_iff {t : List Char} :
    (splitLines (LineEnding.normalize t)).length = 1 ↔ '\n' ∉ t ∧ '\r' ∉ t := by
  rw [length_splitLines, Nat.add_eq_right, List.count_eq_zero]
  fun_induction LineEnding.normalize t with
  | case1 s ih => simp
  | case2 s _ ih => simp
  | case3 c s _ hc ih =>
      have hc' : '\r' ≠ c := fun heq => hc heq.symm
      simp only [List.mem_cons, not_or, ih, hc', not_false_eq_true, true_and, and_assoc]
  | case4 => simp

namespace Command

variable {c c' : Command} {name value : List Char} {d : Char}

theorem not_mem_default (hd : d = '\n' ∨ d = '\r') (k : Keyword) :
    ∀ p ∈ k.params, ∀ s ∈ p.default, d ∉ (Parameter.ofText s).raw := by
  rcases hd with rfl | rfl
  · exact fun p hp s hs => (k.wellFormed_default p hp s hs).2
  · cases k <;> decide

/-- Only the value can bring a line end of either kind into the line of a command. -/
theorem not_mem_toLine_withParam_iff (hd : d = '\n' ∨ d = '\r')
    (h : c.withParam name value = .ok c') (hc : ∀ p ∈ c.params, d ∉ p.raw) :
    d ∉ c'.toLine ↔ d ∉ trim value := by
  have hraw : (Parameter.ofText (trim value)).raw = trim value := trim_trim value
  have hspelling : d ∉ c'.keyword.spelling := by
    rcases hd with rfl | rfl
    · exact Keyword.newline_not_mem_spelling _
    · exact Script.cr_not_mem_spelling _
  have hform : d ∉ [' ', '[', ',', ']'] := by
    rcases hd with rfl | rfl <;> decide
  rw [← List.count_eq_zero, count_toLine hspelling hform, Parameter.rawCount_eq_zero_iff]
  constructor
  · intro hall
    by_cases hne : trim value = []
    · rw [hne]
      exact List.not_mem_nil
    · rw [← hraw]
      exact hall _ (mem_withParam h hne)
  · intro hvalue
    refine forall_mem_withParam h hc (not_mem_default hd c.keyword) fun _ _ => ?_
    rw [hraw]
    exact hvalue

end Command

/-! ## Lines that stay where they are -/

namespace Splice

variable {k : Nat}

theorem length_written_pos (place : Nat) (gone : Option Nat) (t : List Char) :
    0 < (Splice.mk gone place (some t)).written.length :=
  List.length_pos_of_ne_nil (splitLines_ne_nil _)

theorem carry_of_insert (place : Nat) (t : List Char) :
    (Splice.mk none place (some t)).carry k = some k ↔ k < place := by
  have hpos := length_written_pos place none t
  have hmoved : (Splice.mk none place (some t)).moved k =
      if k < place then k else k + (Splice.mk none place (some t)).written.length := rfl
  rw [carry, if_neg (Option.some_ne_none k).symm, hmoved, Option.some.injEq]
  split <;> omega

theorem carry_of_remove (g place : Nat) :
    (Splice.mk (some g) place none).carry k = some k ↔ k < g := by
  have hwritten : (Splice.mk (some g) place none).written.length = 0 := rfl
  simp only [carry, moved, closedUp, hwritten, Option.some.injEq, Option.map_none, Nat.add_zero,
    ite_self]
  split
  · simp
    omega
  · simp only [Option.some.injEq]
    split <;> omega

theorem carry_of_move (g place : Nat) (t : List Char) :
    (Splice.mk (some g) place (some t)).carry k = some k ↔
      k = g ∧ place = k ∨ k < g ∧ k < place ∨
        g < k ∧ place < k ∧ (splitLines (LineEnding.normalize t)).length = 1 := by
  have hwritten : (Splice.mk (some g) place (some t)).written.length =
      (splitLines (LineEnding.normalize t)).length := rfl
  have hpos := length_written_pos place (some g) t
  simp only [carry, moved, closedUp, hwritten, Option.some.injEq, Option.map_some]
  rw [hwritten] at hpos
  split
  · simp only [Option.some.injEq]
    omega
  · simp only [Option.some.injEq]
    split <;> split <;> omega

end Splice

namespace EditorEdit

open Script

/-- Whether a move of the command with the index `start` in front of the one with the index `target`
leaves the line of the command with the index `i` where it is: a line above both or below both, or a
moved line that stands right above its target. -/
def SparedByMove (script : List Char) (start target i : Nat) : Prop :=
  i < start ∧ i < target ∨ start < i ∧ target ≤ i ∨
    i = start ∧ (commandLines .standard script)[target]?.map CommandLine.index =
      (commandLines .standard script)[start]?.map fun l => l.index + 1

/-- Whether a block edit leaves the line of the command with the index `i` where it is. -/
def Spares (script : List Char) (i : Nat) : EditorEdit → Prop
  | setText _ => False
  | append _ => True
  | insert _ index => i < index
  | remove index => i < index
  | reorder start target => SparedByMove script start target i
  | dropBlock start boundary =>
    if boundary < count .standard script then SparedByMove script start boundary i else i < start
  | updateParam index _ value => i ≤ index ∨ '\n' ∉ trim value ∧ '\r' ∉ trim value

variable {script : List Char} {i : Nat} {l : CommandLine}

theorem carry_of_moveLine (hnormal : '\r' ∉ script) {start target : Nat} {s t : CommandLine}
    (hl : (commandLines .standard script)[i]? = some l)
    (hs : (commandLines .standard script)[start]? = some s)
    (ht : (commandLines .standard script)[target]? = some t) (hne : start ≠ target) :
    (Splice.mk (some s.index) (CommandLine.indexWithout s.index t) (some s.text)).carry l.index =
      some l.index ↔ SparedByMove script start target i := by
  have hone := length_splitLines_normalize_eq_one_iff.2 (not_mem_text hnormal hs)
  have h₁ := index_lt_iff hl hs
  have h₂ := index_lt_iff hs hl
  have h₃ := index_lt_iff hl ht
  have h₄ := index_lt_iff hs ht
  have h₅ := index_lt_iff ht hs
  rw [Splice.carry_of_move, SparedByMove, hs, ht, Option.map_some, Option.map_some,
    Option.some.injEq, CommandLine.indexWithout]
  split <;> omega

/-- A line that is pushed behind a script goes behind all commands that are left. -/
theorem closedUp_lt_pushPlace {g : Nat} (hl : (commandLines .standard script)[i]? = some l)
    (hne : g ≠ l.index) :
    (if g < l.index then l.index - 1 else l.index) <
      pushPlace ((splitLines script).eraseIdx g) := by
  have hgone : (Splice.mk (some g) 0 none).gone ≠ some l.index := fun h => hne (Option.some.inj h)
  refine lt_pushPlace ?_ (text_ne_nil_of_getElem? hl)
  exact (Splice.getElem?_kept_closedUp _ hgone).trans (getElem?_splitLines_index hl)

theorem carry_of_dropLast {start : Nat} {s : CommandLine} (t : List Char)
    (hl : (commandLines .standard script)[i]? = some l)
    (hs : (commandLines .standard script)[start]? = some s)
    (hbelow : start + 1 < count .standard script) :
    (Splice.mk (some s.index) (pushPlace ((splitLines script).eraseIdx s.index))
      (some t)).carry l.index = some l.index ↔ i < start := by
  have h₁ := index_lt_iff hl hs
  have h₂ := index_lt_iff hs hl
  -- the command below the one that is dropped stands above the place where it goes
  have hm := List.getElem?_eq_getElem hbelow
  have h₃ := index_lt_index hs hm (by omega)
  have hplace := closedUp_lt_pushPlace (g := s.index) hm (by omega)
  rw [if_pos h₃] at hplace
  rw [Splice.carry_of_move]
  by_cases hi : s.index = l.index
  · omega
  · have hline := closedUp_lt_pushPlace (g := s.index) hl hi
    split at hline <;> omega

/-- Whether an update writes one line hangs on its value alone. -/
theorem one_line_updated_iff (hnormal : '\r' ∉ script) {name value : List Char} {c : Command}
    (hl : (commandLines .standard script)[i]? = some l)
    (hc : (readLine .standard l).withParam name value = .ok c) :
    (splitLines (LineEnding.normalize (indentation l.text ++ c.toLine))).length = 1 ↔
      '\n' ∉ trim value ∧ '\r' ∉ trim value := by
  obtain ⟨hnewline, hreturn⟩ := not_mem_text hnormal hl
  have hindent : ∀ d : Char, d ∉ l.text → d ∉ indentation l.text := fun d h hmem =>
    h ((List.takeWhile_sublist _).subset hmem)
  have hraws : ∀ d : Char, d ≠ ',' → d ∉ l.text → ∀ p ∈ (readLine .standard l).params, d ∉ p.raw :=
    fun d hd h => not_mem_lineParams hd h
  have h₁ := Command.not_mem_toLine_withParam_iff (Or.inl rfl) hc (hraws _ (by decide) hnewline)
  have h₂ := Command.not_mem_toLine_withParam_iff (Or.inr rfl) hc (hraws _ (by decide) hreturn)
  rw [length_splitLines_normalize_eq_one_iff, List.mem_append, List.mem_append, not_or, not_or, h₁,
    h₂]
  simp [hindent _ hnewline, hindent _ hreturn]

/-- **Which edits leave the line of a command where it is.** -/
theorem Splices.carry_eq_self_iff (hnormal : '\r' ∉ script) {x : EditorEdit} {p : Splice}
    (hx : x.Splices script p) (hl : (commandLines .standard script)[i]? = some l) :
    p.carry l.index = some l.index ↔ x.Spares script i := by
  have hlast : l.index < pushPlace (splitLines script) :=
    lt_pushPlace (getElem?_splitLines_index hl) (text_ne_nil_of_getElem? hl)
  have hlt : i < count .standard script := (List.getElem?_eq_some_iff.1 hl).1
  cases hx with
  | append c => exact (Splice.carry_of_insert _ _).trans (iff_true_intro hlast)
  | insertLast c =>
      have hboth := (iff_true_intro hlast).trans (iff_true_intro hlt).symm
      exact (Splice.carry_of_insert _ _).trans hboth
  | insert c hm => exact (Splice.carry_of_insert _ _).trans (index_lt_iff hl hm)
  | remove hm => exact (Splice.carry_of_remove _ _).trans (index_lt_iff hl hm)
  | reorder hs ht hne => exact carry_of_moveLine hnormal hl hs ht hne
  | drop hs ht hne =>
      have hboundary := (List.getElem?_eq_some_iff.1 ht).1
      rw [← count] at hboundary
      rw [carry_of_moveLine hnormal hl hs ht hne, Spares, if_pos hboundary]
  | dropLast hs hle hbelow =>
      rw [carry_of_dropLast _ hl hs hbelow, Spares, if_neg (by omega)]
  | updateParam hm hc =>
      have h₁ := index_lt_iff hl hm
      have h₂ := index_lt_iff hm hl
      rw [Splice.carry_of_move, Spares, ← one_line_updated_iff hnormal hm hc]
      omega

end EditorEdit

/-! ## Where the highlight is -/

namespace Editor

open Script

variable {e : Editor}

/-- An edit that says that it changed something committed the text that it found. -/
theorem exists_of_edit {x : EditorEdit} (h : (e.edit x).2 = .ok true) :
    ∃ text, x.change e.language e.content = .ok (some text) ∧ (e.edit x).1 = e.commit text := by
  rw [edit_eq] at h ⊢
  split at h
  · cases h
  · next hlocked =>
    rw [if_neg hlocked]
    split at h
    · cases h
    · next hbusy =>
      rw [if_neg hbusy]
      split at h
      · cases h
      · cases h
      · next text hchange => exact ⟨text, hchange, rfl⟩

/-- A mark is put on the line with the same number again, if that is a command line. -/
theorem mark_commit (ha : e.language.CommentApart) (text : List Char) :
    (e.commit text).mark = e.mark.filter fun m =>
      decide (m.line ∈ Script.commandNumbers e.language (e.commit text).content) := by
  rw [(updatedOnce_commit e text).content_eq]
  exact mark_render (e := { e with buffer := e.buffer.update true text }) ha

/-- Where the highlight `m`, which was on the line `l` of the command with the index `i`, is after a
block edit that made the editor `e'` from `e` by a splice of the lines. -/
structure HighlightAfter (e e' : Editor) (x : EditorEdit) (p : Splice) (i : Nat) (l : CommandLine)
    (m : LineMark) : Prop where
  lines_eq : splitLines e'.content = p.applied p.written (splitLines e.content)
  /-- The line of the command is found where the splice carries it: as it was, or as the first of the
  lines that are written in its place. -/
  carried : ∀ k, p.carry l.index = some k → (splitLines e'.content)[k]? =
    if p.gone = some l.index then p.written.head? else some l.text
  /-- The highlight keeps its line number, or is gone if no command stands there. -/
  mark_eq : e'.mark = if m.line ∈ Script.commandNumbers .standard e'.content then some m else none
  /-- So it is gone or on the line of the same command exactly if the edit leaves that line where it
  is, or no command stands there any more. -/
  follows_iff : (e'.mark = none ∨ ∃ k, p.carry l.index = some k ∧ e'.mark = some ⟨k + 1, m.kind⟩) ↔
    x.Spares e.content i ∨ m.line ∉ Script.commandNumbers .standard e'.content

/-- **The highlight keeps its line number through every block edit**, and keeps to its command exactly
if the edit leaves the line of the command where it is, or the highlight is given up. -/
theorem exists_highlightAfter (he : e.Opened .standard) {m : LineMark} (hmark : e.mark = some m)
    {i : Nat} {l : CommandLine} (hl : (commandLines .standard e.content)[i]? = some l)
    (hline : m.line = l.number) {x : EditorEdit} (hx : x.isBlockEdit = true)
    (hanswer : (e.edit x).2 = .ok true) :
    ∃ p, x.Splices e.content p ∧ HighlightAfter e (e.edit x).1 x p i l m := by
  have hmarker : hasMarker .standard e.content = true := by
    by_contra hnone
    rw [Bool.not_eq_true] at hnone
    rw [commandLines_eq, commandsAmong_of_anyMarker_eq_false .standard 0 hnone] at hl
    cases hl
  obtain ⟨text, hchange, hedit⟩ := exists_of_edit hanswer
  rw [he.language_eq] at hchange
  obtain ⟨p, hp, rfl⟩ := EditorEdit.exists_splices hmarker hx hchange
  have hlines : splitLines (e.commit (p.onText e.content)).content =
      p.applied p.written (splitLines e.content) := by
    rw [(updatedOnce_commit e _).content_eq, hp.splitLines_eq he.normal hmarker]
  have hkept : (e.commit (p.onText e.content)).mark =
      if m.line ∈ Script.commandNumbers .standard (e.commit (p.onText e.content)).content then some m
      else none := by
    rw [mark_commit (by rw [he.language_eq]; exact Language.commentApart_standard), hmark,
      he.language_eq]
    by_cases hmem : m.line ∈ Script.commandNumbers .standard (e.commit (p.onText e.content)).content <;>
      simp [Option.filter, hmem]
  refine ⟨p, hp, ?_⟩
  rw [hedit]
  refine ⟨hlines, ?_, hkept, ?_⟩
  · intro k hk
    rw [hlines, Splice.getElem?_of_carry hp.place_le hk, getElem?_splitLines_index hl]
  · rw [hkept, ← hp.carry_eq_self_iff he.normal hl]
    by_cases hmem : m.line ∈ Script.commandNumbers .standard (e.commit (p.onText e.content)).content
    · -- the mark stays at its number, which is that of the line that was marked
      rw [if_pos hmem]
      constructor
      · rintro (hnone | ⟨k, hk, hsome⟩)
        · cases hnone
        · have hnumber : k + 1 = m.line := (congrArg LineMark.line (Option.some.inj hsome)).symm
          rw [hline, CommandLine.number, Nat.add_right_cancel_iff] at hnumber
          exact Or.inl (hnumber ▸ hk)
      · rintro (hcarry | hnot)
        · refine Or.inr ⟨l.index, hcarry, ?_⟩
          rw [← CommandLine.number, ← hline]
        · exact absurd hmem hnot
    · rw [if_neg hmem]
      exact ⟨fun _ => Or.inr hmem, fun _ => Or.inl rfl⟩

/-- The second command is marked as failed, and its parameter gets a value that breaks the line. -/
theorem exists_highlightAfter_updated :
    let text := "步骤:\n返回\n等待 [1]\n返回".toList
    let e := ((ofBuffer .standard (Buffer.create .standard "a.tks".toList text)).highlightError 3).1
    let x := EditorEdit.updateParam 1 "时长/ms".toList "2\n3".toList
    e.Opened .standard ∧ e.mark = some ⟨3, .error⟩ ∧ (e.edit x).2 = .ok true ∧
      (∃ p, x.Splices e.content p ∧
        HighlightAfter e (e.edit x).1 x p 1 ⟨2, "等待 [1]".toList, .wait⟩ ⟨3, .error⟩) ∧
      x.Spares e.content 1 ∧ (e.edit x).1.mark = some ⟨3, .error⟩ :=
  have he := ⟨.standard, "a.tks".toList, _, [.editor (.highlight ⟨3, .error⟩)], rfl⟩
  ⟨he, rfl, rfl, exists_highlightAfter he rfl (by rfl) rfl rfl rfl,
    Or.inl (Nat.le_refl 1), rfl⟩

/-- **The highlight jumps to another command.** The second command is marked as failed, and one is put
in front of the first: the mark is then on what was the first command. -/
theorem not_follows_insert :
    let text := "步骤:\n返回\n等待 [1]".toList
    let e := ((ofBuffer .standard (Buffer.create .standard "a.tks".toList text)).highlightError 3).1
    let e' := (e.insert ⟨0, .hideKeyboard, []⟩ 0).1
    e.Opened .standard ∧ (e.insert ⟨0, .hideKeyboard, []⟩ 0).2 = .ok true ∧
      e.mark = some ⟨3, .error⟩ ∧ e'.mark = some ⟨3, .error⟩ ∧
      e.commands.map (fun c => (c.line, c.keyword)) = [(2, .back), (3, .wait)] ∧
      e'.commands.map (fun c => (c.line, c.keyword)) = [(2, .hideKeyboard), (3, .back), (4, .wait)] :=
  ⟨⟨_, _, _, [.editor (.highlight ⟨3, .error⟩)], rfl⟩, rfl, rfl, rfl, rfl, rfl⟩

end Editor

end StepScript
