import StepScript.Proofs.EditorActions

/-!
# Where a mark is shown

A mark is kept three times: by the editor, and by each view together with the place at which the view
shows it, which is a run of characters or the index of a block. A view stores that place when it
takes the mark and never works it out again. It stays right all the same, in both views at any time,
because a view that is drawn anew starts without a mark; that the three copies agree is then a matter
of the active view alone.

Main statements:

* `Editor.MarksInPlace.act` — every action leaves the marks of both views in their places;
* `Editor.markFaithful_of_reachable` — in every reachable editor the mark, its place and the locks
  agree, and the other view takes the mark over.
-/

set_option autoImplicit false

namespace StepScript

/-! ## The text view -/

namespace TextView

/-- A text view that shows its mark, if any, on the characters of the marked line. -/
def MarkInPlace (v : TextView) : Prop :=
  ∀ m range, v.marked = some (m, range) → Text.lineRange? v.text (m.line - 1) = some range

variable {v : TextView}

theorem markInPlace_of_marked_eq_none (h : v.marked = none) : v.MarkInPlace := by
  intro m range hmarked
  rw [h] at hmarked
  cases hmarked

theorem MarkInPlace.markLine (h : v.MarkInPlace) (m : LineMark) :
    (v.markLine m).1.MarkInPlace := by
  unfold TextView.markLine
  split
  · exact h
  · split
    · exact h
    · split
      · exact h
      · next range hrange =>
        intro m' range' hmarked
        obtain ⟨rfl, rfl⟩ := Prod.mk.inj (Option.some.inj hmarked)
        exact hrange

theorem MarkInPlace.clearMark (h : v.MarkInPlace) : v.clearMark.MarkInPlace := by
  unfold TextView.clearMark
  split
  · exact markInPlace_of_marked_eq_none rfl
  · exact h

theorem MarkInPlace.editLayers (h : v.MarkInPlace) (edits : List Layers.Edit) :
    (v.editLayers edits).1.MarkInPlace := by
  rcases Editor.editLayers_eq v edits with hv | ⟨layers, hv⟩ <;> rw [hv] <;> exact h

/-- A text view that shows a script and a mark shows the mark on the characters of its line. -/
theorem MarkInPlace.markRange?_eq (h : v.MarkInPlace) {m : LineMark} (hm : v.mark? = some m) :
    ∃ range, v.markRange? = some range ∧ Text.lineRange? v.text (m.line - 1) = some range := by
  obtain ⟨⟨m', range⟩, hmarked, rfl⟩ := Option.map_eq_some_iff.1 hm
  exact ⟨range, by rw [markRange?, hmarked]; rfl, h m' range hmarked⟩

end TextView

/-! ## The block view -/

namespace BlockView

/-- A block view that shows its mark, if any, on the first block of the marked line. -/
def MarkInPlace (v : BlockView) : Prop :=
  ∀ m index, v.marked = some (m, index) →
    v.blocks.findIdx? (fun b => b.command.line == m.line) = some index

variable {v : BlockView}

theorem markInPlace_of_marked_eq_none (h : v.marked = none) : v.MarkInPlace := by
  intro m index hmarked
  rw [h] at hmarked
  cases hmarked

theorem MarkInPlace.markLine (h : v.MarkInPlace) (m : LineMark) :
    (v.markLine m).1.MarkInPlace := by
  unfold BlockView.markLine
  split
  · exact h
  · next index hindex =>
    split
    · exact h
    · intro m' index' hmarked
      obtain ⟨rfl, rfl⟩ := Prod.mk.inj (Option.some.inj hmarked)
      exact hindex

theorem MarkInPlace.clearMark (h : v.MarkInPlace) : v.clearMark.MarkInPlace := by
  unfold BlockView.clearMark
  split
  · exact markInPlace_of_marked_eq_none rfl
  · exact h

/-- A block view that shows a script shows its mark on the block whose index is the rank of the
marked line among the command lines. -/
theorem MarkInPlace.markedBlock?_eq (h : v.MarkInPlace) {lang : Language} {script : List Char}
    (hshows : v.Shows lang script) (ha : lang.CommentApart) {m : LineMark}
    (hm : v.mark? = some m) :
    v.markedBlock? = some ((Script.commandNumbers lang script).idxOf m.line) := by
  obtain ⟨⟨m', index⟩, hmarked, rfl⟩ := Option.map_eq_some_iff.1 hm
  have hindex := h m' index hmarked
  have hlines : (Script.commandNumbers lang script).findIdx? (fun n => n == m'.line) =
      some index := by
    rw [← hshows.map_line_blocks ha, List.findIdx?_map]
    exact hindex
  rw [markedBlock?, hmarked]
  exact congrArg some (List.findIdx?_eq_some_iff_findIdx_eq.1 hlines).2.symm

end BlockView

/-! ## Editors -/

namespace Editor

/-- An editor whose views show their marks in their places, the view that is not active too. -/
structure MarksInPlace (e : Editor) : Prop where
  text : e.textView.MarkInPlace
  block : e.blockView.MarkInPlace

variable {e : Editor}

theorem MarksInPlace.drawActive (h : e.MarksInPlace) : e.drawActive.MarksInPlace := by
  unfold Editor.drawActive
  split
  · exact ⟨TextView.markInPlace_of_marked_eq_none rfl, h.block⟩
  · exact ⟨h.text, BlockView.markInPlace_of_marked_eq_none rfl⟩

theorem MarksInPlace.markActive (h : e.MarksInPlace) (m : LineMark) :
    (e.markActive m).1.MarksInPlace := by
  unfold Editor.markActive
  split
  · exact ⟨h.text.markLine m, h.block⟩
  · exact ⟨h.text, h.block.markLine m⟩

theorem MarksInPlace.render (h : e.MarksInPlace) : e.render.MarksInPlace := by
  rw [render_eq]
  split
  · exact h.drawActive
  · next m _ =>
    have hmarked := h.drawActive.markActive m
    split
    · exact ⟨hmarked.text, hmarked.block⟩
    · exact hmarked

theorem MarksInPlace.highlight (h : e.MarksInPlace) (m : LineMark) :
    (e.highlight m).1.MarksInPlace := by
  obtain ⟨mark, hactive⟩ := exists_highlight_eq e m
  have hmarked := h.markActive m
  rw [hactive]
  exact ⟨hmarked.text, hmarked.block⟩

theorem marksInPlace_ofBuffer (lang : Language) (buffer : Buffer) :
    (ofBuffer lang buffer).MarksInPlace :=
  MarksInPlace.render
    ⟨TextView.markInPlace_of_marked_eq_none rfl, BlockView.markInPlace_of_marked_eq_none rfl⟩

/-- Every action leaves the marks of both views in their places. -/
theorem MarksInPlace.act (h : e.MarksInPlace) (a : EditorAction) : (e.act a).MarksInPlace := by
  cases a with
  | edit x =>
      rcases edit_eq_self_or_commit e x with hx | ⟨text, hx⟩
      · rw [Editor.act, hx]
        exact h
      · rw [Editor.act, hx]
        exact MarksInPlace.render (e := { e with buffer := e.buffer.update true text })
          ⟨h.text, h.block⟩
  | beginEdit =>
      rcases act_beginEdit e with hx | hx <;> rw [hx]
      · exact h
      · exact ⟨h.text, h.block⟩
  | endEdit => exact ⟨h.text, h.block⟩
  | switchMode mode => exact MarksInPlace.render (e := { e with mode }) ⟨h.text, h.block⟩
  | toggleMode =>
      exact MarksInPlace.render (e := { e with mode := e.mode.toggle }) ⟨h.text, h.block⟩
  | setLocked locked => exact ⟨h.text, h.block⟩
  | highlight m => exact h.highlight m
  | clearHighlight => exact ⟨h.text.clearMark, h.block.clearMark⟩
  | editLayers edits => exact ⟨h.text.editLayers edits, h.block⟩
  | upkeep u => exact ⟨h.text, h.block⟩

theorem Reachable.marksInPlace {lang : Language} (h : Reachable lang e) : e.MarksInPlace := by
  induction h with
  | ofBuffer buffer => exact marksInPlace_ofBuffer lang buffer
  | act a h ih => exact ih.act a

/-! ## The mark, its place and the locks -/

/-- The text view of a coherent editor in text mode shows the script and the mark. -/
theorem Coherent.of_text (h : e.Coherent) (hmode : e.mode = .text) :
    e.textView.Shows e.language e.content ∧ e.textView.mark? = e.mark := by
  have hshows := h.shows_script
  have hshown := h.shownMark_eq
  unfold ShowsScript at hshows
  unfold shownMark? at hshown
  rw [hmode] at hshows hshown
  exact ⟨hshows, hshown⟩

/-- The block view of a coherent editor in block mode shows the script and the mark. -/
theorem Coherent.of_block (h : e.Coherent) (hmode : e.mode = .block) :
    e.blockView.Shows e.language e.content ∧ e.blockView.mark? = e.mark := by
  have hshows := h.shows_script
  have hshown := h.shownMark_eq
  unfold ShowsScript at hshows
  unfold shownMark? at hshown
  rw [hmode] at hshows hshown
  exact ⟨hshows, hshown⟩

/-- What is promised of the mark and the locks of an editor. -/
structure MarkFaithful (e : Editor) : Prop where
  /-- The active view shows the mark that the editor remembers. -/
  shown : e.shownMark? = e.mark
  /-- The mark is on a command line of the script. -/
  on_command : ∀ m ∈ e.mark, m.line ∈ Script.commandNumbers e.language e.content
  /-- The block that is marked is the one whose index is the rank of the line. -/
  block : e.mode = .block → e.blockView.markedBlock? =
    e.mark.map fun m => (Script.commandNumbers e.language e.content).idxOf m.line
  /-- The characters that are marked are those of the line. -/
  text : e.mode = .text → ∀ m ∈ e.mark, ∃ range, e.textView.markRange? = some range ∧
    Text.lineRange? e.content (m.line - 1) = some range
  textLocked : e.textView.locked = e.locked
  blockLocked : e.blockView.locked = e.locked
  /-- Making a view active does nothing to the buffer, and the mark stays. -/
  switched : ∀ mode, (e.switchMode mode).buffer = e.buffer ∧ (e.switchMode mode).mark = e.mark
  toggled : e.toggleMode.buffer = e.buffer ∧ e.toggleMode.mark = e.mark

theorem Coherent.markFaithful (h : e.Coherent) (hplaces : e.MarksInPlace)
    (ha : e.language.CommentApart) : e.MarkFaithful := by
  have hswitched : ∀ mode,
      (e.switchMode mode).buffer = e.buffer ∧ (e.switchMode mode).mark = e.mark := fun mode =>
    ⟨(redrawn_render { e with mode }).buffer_eq, h.mark_switchMode ha mode⟩
  refine ⟨h.shownMark_eq, h.mark_mem, ?_, ?_, h.textLocked_eq, h.blockLocked_eq, hswitched,
    hswitched e.mode.toggle⟩
  · intro hmode
    obtain ⟨hshows, hshown⟩ := h.of_block hmode
    rw [← hshown]
    cases hm : e.blockView.mark? with
    | none => rw [BlockView.markedBlock?, Option.map_eq_none_iff.1 hm]; rfl
    | some m => exact hplaces.block.markedBlock?_eq hshows ha hm
  · intro hmode m hm
    obtain ⟨hshows, hshown⟩ := h.of_text hmode
    rw [← hshows.text_eq]
    exact hplaces.text.markRange?_eq (hshown.trans hm)

/-- **Marks and locks agree.** In every reachable editor the active view shows the mark that the
editor remembers, on the command line that it is about and at the place of that line, both views know
whether the editor is locked, and making a view active changes neither the buffer nor the mark. -/
theorem markFaithful_of_reachable {lang : Language} (ha : lang.CommentApart)
    (h : e.Reachable lang) : e.MarkFaithful := by
  refine (h.coherent ha).markFaithful h.marksInPlace ?_
  rw [h.language_eq]
  exact ha

/-- An editor in which the second command is marked as failed. -/
theorem markFaithful_of_reachable_failed :
    let text := "步骤:\n点击 [\x7ba\x7d]\n返回".toList
    let start := ofBuffer .standard (Buffer.create .standard "a.tks".toList text)
    let e := start.act (.highlight ⟨3, .error⟩)
    e.Reachable .standard ∧ e.MarkFaithful ∧ e.mark = some ⟨3, .error⟩ ∧
      e.blockView.markedBlock? = some 1 ∧ e.toggleMode.mark = some ⟨3, .error⟩ := by
  intro text start e
  have ha := Language.commentApart_standard
  have hstart : start.Reachable .standard := .ofBuffer _
  have hreachable : e.Reachable .standard := .act _ hstart
  have hfaithful := markFaithful_of_reachable ha hreachable
  have hnumbers : Script.commandNumbers .standard text = [2, 3] := rfl
  have hcontent : e.content = text :=
    (redrawn_highlight start ⟨3, .error⟩).content_eq.trans (redrawn_render _).content_eq
  have hmode : e.mode = .block :=
    (redrawn_highlight start ⟨3, .error⟩).mode_eq.trans (redrawn_render _).mode_eq
  have hcommands : start.commandNumbers = [2, 3] := by
    rw [commandNumbers, hstart.language_eq, ← hnumbers, ← hcontent]
    exact congrArg _ (redrawn_highlight start ⟨3, .error⟩).content_eq.symm
  have hmark : e.mark = some ⟨3, .error⟩ := by
    refine ((hstart.coherent ha).mark_highlight (by rw [hstart.language_eq]; exact ha) _).trans ?_
    rw [hcommands]
    rfl
  refine ⟨hreachable, hfaithful, hmark, ?_, hfaithful.toggled.2.trans hmark⟩
  rw [hfaithful.block hmode, hmark, hreachable.language_eq, hcontent, hnumbers]
  rfl

end Editor

end StepScript
