import StepScript.Editor
import StepScript.Proofs.Marks

/-!
# Editors and their marks

An editor is **coherent** when its active view shows the script, and shows the mark that the editor
remembers on one of its command lines. Drawing makes an editor coherent, and marks keep it so. None
of this touches anything but the views and the mark.

Main statements:

* `Editor.redrawn_render`, `Editor.redrawn_highlight`, `Editor.redrawn_clearHighlight` — what is not
  touched;
* `Editor.coherent_render`, `Editor.mark_render` — drawing keeps a mark that still has a line;
* `Editor.Coherent.mark_highlight` — the mark after a request.
-/

set_option autoImplicit false

namespace StepScript

namespace Editor

/-! ## What drawing does not touch -/

/-- An editor that differs from another one at most in its mark and in what its views show. -/
structure Redrawn (e e' : Editor) : Prop where
  language_eq : e'.language = e.language
  buffer_eq : e'.buffer = e.buffer
  mode_eq : e'.mode = e.mode
  locked_eq : e'.locked = e.locked
  slotTaken_eq : e'.slotTaken = e.slotTaken
  textLocked_eq : e'.textView.locked = e.textView.locked
  blockLocked_eq : e'.blockView.locked = e.blockView.locked

theorem Redrawn.trans {e e' e'' : Editor} (h : Redrawn e e') (h' : Redrawn e' e'') :
    Redrawn e e'' where
  language_eq := h'.language_eq.trans h.language_eq
  buffer_eq := h'.buffer_eq.trans h.buffer_eq
  mode_eq := h'.mode_eq.trans h.mode_eq
  locked_eq := h'.locked_eq.trans h.locked_eq
  slotTaken_eq := h'.slotTaken_eq.trans h.slotTaken_eq
  textLocked_eq := h'.textLocked_eq.trans h.textLocked_eq
  blockLocked_eq := h'.blockLocked_eq.trans h.blockLocked_eq

theorem redrawn_setMark (e : Editor) (mark : Option LineMark) : Redrawn e { e with mark } :=
  ⟨rfl, rfl, rfl, rfl, rfl, rfl, rfl⟩

theorem redrawn_drawActive (e : Editor) : Redrawn e e.drawActive := by
  unfold drawActive
  split <;> exact ⟨rfl, rfl, rfl, rfl, rfl, rfl, rfl⟩

theorem redrawn_markActive (e : Editor) (m : LineMark) : Redrawn e (e.markActive m).1 := by
  unfold markActive
  split
  · exact ⟨rfl, rfl, rfl, rfl, rfl, e.textView.locked_markLine m, rfl⟩
  · exact ⟨rfl, rfl, rfl, rfl, rfl, rfl, e.blockView.locked_markLine m⟩

theorem redrawn_render (e : Editor) : Redrawn e e.render := by
  have hdrawn := redrawn_drawActive e
  unfold render
  dsimp only
  split
  · exact hdrawn
  · next m _ =>
    have hmarked := hdrawn.trans (redrawn_markActive e.drawActive m)
    split
    · next marked h =>
      rw [h] at hmarked
      exact hmarked.trans (redrawn_setMark marked none)
    · next marked outcome _ h =>
      rw [h] at hmarked
      exact hmarked

theorem redrawn_highlight (e : Editor) (m : LineMark) : Redrawn e (e.highlight m).1 := by
  have hmarked := redrawn_markActive e m
  unfold highlight
  split
  · next marked h =>
    rw [h] at hmarked
    exact hmarked.trans (redrawn_setMark marked (some m))
  · exact hmarked

theorem redrawn_clearHighlight (e : Editor) : Redrawn e e.clearHighlight :=
  ⟨rfl, rfl, rfl, rfl, rfl, e.textView.locked_clearMark, e.blockView.locked_clearMark⟩

/-! ## What the active view shows -/

def commandNumbers (e : Editor) : List Nat :=
  Script.commandNumbers e.language e.content

/-- The active view shows a text. -/
def ShowsText (e : Editor) (text : List Char) : Prop :=
  match e.mode with
  | .text => e.textView.Shows e.language text
  | .block => e.blockView.Shows e.language text

/-- The active view shows the script. -/
def ShowsScript (e : Editor) : Prop :=
  match e.mode with
  | .text => e.textView.Shows e.language e.content
  | .block => e.blockView.Shows e.language e.content

variable {e : Editor} {text : List Char}

theorem Redrawn.content_eq {e' : Editor} (h : Redrawn e e') : e'.content = e.content :=
  congrArg Buffer.content h.buffer_eq

theorem Redrawn.commandNumbers_eq {e' : Editor} (h : Redrawn e e') :
    e'.commandNumbers = e.commandNumbers := by
  rw [commandNumbers, commandNumbers, h.language_eq, h.content_eq]

theorem showsScript_drawActive (e : Editor) : e.drawActive.ShowsScript := by
  obtain ⟨language, buffer, mode, textView, blockView, locked, mark, slotTaken⟩ := e
  cases mode with
  | text => exact TextView.shows_render _ _ _
  | block => exact BlockView.shows_render _ _ _

theorem shownMark?_drawActive (e : Editor) : e.drawActive.shownMark? = none := by
  obtain ⟨language, buffer, mode, textView, blockView, locked, mark, slotTaken⟩ := e
  cases mode <;> rfl

theorem mark_drawActive (e : Editor) : e.drawActive.mark = e.mark := by
  unfold drawActive
  split <;> rfl

theorem mark_markActive (e : Editor) (m : LineMark) : (e.markActive m).1.mark = e.mark := by
  unfold markActive
  split <;> rfl

theorem ShowsText.markActive (h : e.ShowsText text) (m : LineMark) :
    (e.markActive m).1.ShowsText text := by
  obtain ⟨language, buffer, mode, textView, blockView, locked, mark, slotTaken⟩ := e
  cases mode with
  | text => exact TextView.Shows.markLine h m
  | block => exact BlockView.Shows.markLine h m

theorem ShowsText.clearHighlight (h : e.ShowsText text) : e.clearHighlight.ShowsText text := by
  obtain ⟨language, buffer, mode, textView, blockView, locked, mark, slotTaken⟩ := e
  cases mode with
  | text => exact TextView.Shows.clearMark h
  | block => exact BlockView.Shows.clearMark h

theorem ShowsText.setLocked (h : e.ShowsText text) (locked : Bool) :
    (e.setLocked locked).ShowsText text := by
  obtain ⟨language, buffer, mode, textView, blockView, locked', mark, slotTaken⟩ := e
  cases mode with
  | text =>
      have hshows : textView.Shows language text := h
      exact ⟨hshows.text_eq, hshows.commandLines_eq⟩
  | block =>
      have hshows : blockView.Shows language text := h
      exact ⟨hshows.blocks_eq⟩

theorem ShowsScript.markActive (h : e.ShowsScript) (m : LineMark) :
    (e.markActive m).1.ShowsScript := by
  have hshows : e.ShowsText e.content := h
  show (e.markActive m).1.ShowsText (e.markActive m).1.content
  rw [(redrawn_markActive e m).content_eq]
  exact hshows.markActive m

/-- What becomes of a request that the active view gets. -/
theorem ShowsScript.outcome_markActive (h : e.ShowsScript) (ha : e.language.CommentApart)
    (m : LineMark) : (e.markActive m).2 = m.outcome e.commandNumbers e.shownMark? := by
  obtain ⟨language, buffer, mode, textView, blockView, locked, mark, slotTaken⟩ := e
  cases mode with
  | text => exact TextView.Shows.outcome_markLine h m
  | block => exact BlockView.Shows.outcome_markLine h ha m

/-- The mark that the active view shows after a request. -/
theorem ShowsScript.shownMark?_markActive (h : e.ShowsScript) (ha : e.language.CommentApart)
    (m : LineMark) :
    (e.markActive m).1.shownMark? = m.shownAfter e.commandNumbers e.shownMark? := by
  obtain ⟨language, buffer, mode, textView, blockView, locked, mark, slotTaken⟩ := e
  cases mode with
  | text => exact TextView.Shows.mark?_markLine h m
  | block => exact BlockView.Shows.mark?_markLine h ha m

/-! ## Coherence -/

/-- A **coherent** editor: the active view shows the script and the mark that the editor remembers,
the mark is on a command line, and both views know whether the editor is locked. -/
structure Coherent (e : Editor) : Prop where
  shows_script : e.ShowsScript
  shownMark_eq : e.shownMark? = e.mark
  mark_mem : ∀ m ∈ e.mark, m.line ∈ e.commandNumbers
  textLocked_eq : e.textView.locked = e.locked
  blockLocked_eq : e.blockView.locked = e.locked

/-- Drawing asks the active view for the remembered mark again, and forgets a mark that is ignored. -/
theorem render_eq (e : Editor) :
    e.render =
      match e.mark with
      | none => e.drawActive
      | some m =>
        if (e.drawActive.markActive m).2 = .ignored then
          { (e.drawActive.markActive m).1 with mark := none }
        else (e.drawActive.markActive m).1 := by
  rw [render]
  cases e.mark with
  | none => rfl
  | some m =>
      dsimp only
      split
      · next h => rw [h, if_pos rfl]
      · next hne h => rw [h, if_neg hne]

/-- A view that was just drawn shows the script. -/
theorem showsText_render (e : Editor) : e.render.ShowsText e.content := by
  have hdrawn : e.drawActive.ShowsText e.content := by
    have hshows := showsScript_drawActive e
    rw [ShowsScript, (redrawn_drawActive e).content_eq] at hshows
    exact hshows
  rw [render_eq]
  split
  · exact hdrawn
  · next m _ =>
    have hmarked := hdrawn.markActive m
    split
    · exact hmarked
    · exact hmarked

/-- What becomes of the remembered mark when the active view is drawn: it stays if its line is still
a command line. -/
theorem render_cases (ha : e.language.CommentApart) :
    (e.mark = none ∧ e.render = e.drawActive) ∨ ∃ m, e.mark = some m ∧
      (m.line ∈ e.commandNumbers ∧ e.render = (e.drawActive.markActive m).1 ∨
        m.line ∉ e.commandNumbers ∧
          e.render = { (e.drawActive.markActive m).1 with mark := none }) := by
  cases hmark : e.mark with
  | none =>
      refine Or.inl ⟨rfl, ?_⟩
      rw [render_eq, hmark]
  | some m =>
      have hdrawn := redrawn_drawActive e
      have houtcome : (e.drawActive.markActive m).2 = m.outcome e.commandNumbers none := by
        rw [(showsScript_drawActive e).outcome_markActive (by rw [hdrawn.language_eq]; exact ha) m,
          hdrawn.commandNumbers_eq, shownMark?_drawActive]
      refine Or.inr ⟨m, rfl, ?_⟩
      by_cases hline : m.line ∈ e.commandNumbers
      · rw [LineMark.outcome_none hline] at houtcome
        refine Or.inl ⟨hline, ?_⟩
        rw [render_eq, hmark]
        exact if_neg (by rw [houtcome]; decide)
      · rw [LineMark.outcome_of_not_mem hline] at houtcome
        refine Or.inr ⟨hline, ?_⟩
        rw [render_eq, hmark]
        exact if_pos houtcome

/-- Drawing keeps the mark if its line is a command line of the script. -/
theorem mark_render (ha : e.language.CommentApart) :
    e.render.mark = e.mark.filter fun m => decide (m.line ∈ e.commandNumbers) := by
  rcases render_cases ha with ⟨hmark, hrender⟩ | ⟨m, hmark, ⟨hline, hrender⟩ | ⟨hline, hrender⟩⟩
  · rw [hrender, hmark, mark_drawActive, hmark]
    rfl
  · rw [hrender, mark_markActive, mark_drawActive, hmark]
    simp [Option.filter, hline]
  · rw [hrender, hmark]
    simp [Option.filter, hline]

/-- Drawing makes an editor coherent. -/
theorem coherent_render (ha : e.language.CommentApart) (htext : e.textView.locked = e.locked)
    (hblock : e.blockView.locked = e.locked) : e.render.Coherent := by
  have hredrawn := redrawn_render e
  have hdrawn := redrawn_drawActive e
  have hshows := showsScript_drawActive e
  have ha' : e.drawActive.language.CommentApart := by
    rw [hdrawn.language_eq]
    exact ha
  have hafter : ∀ m, (e.drawActive.markActive m).1.shownMark? =
      m.shownAfter e.commandNumbers none := by
    intro m
    rw [hshows.shownMark?_markActive ha' m, hdrawn.commandNumbers_eq, shownMark?_drawActive]
  refine ⟨?_, ?_, ?_, ?_, ?_⟩
  · show e.render.ShowsText e.render.content
    rw [hredrawn.content_eq]
    exact showsText_render e
  · rcases render_cases ha with ⟨hmark, hrender⟩ | ⟨m, hmark, ⟨hline, hrender⟩ | ⟨hline, hrender⟩⟩
    · rw [hrender, shownMark?_drawActive, mark_drawActive, hmark]
    · rw [hrender, hafter m, mark_markActive, mark_drawActive, hmark, LineMark.shownAfter,
        LineMark.outcome_none hline, if_pos rfl]
    · rw [hrender]
      refine (hafter m).trans ?_
      rw [LineMark.shownAfter, LineMark.outcome_of_not_mem hline, if_neg (by decide)]
  · intro m hm
    rw [mark_render ha] at hm
    rw [hredrawn.commandNumbers_eq]
    simpa using (Option.mem_filter_iff.1 hm).2
  · rw [hredrawn.textLocked_eq, hredrawn.locked_eq, htext]
  · rw [hredrawn.blockLocked_eq, hredrawn.locked_eq, hblock]

/-! ## Marks on a coherent editor -/

/-- A request changes the active view, and at most the mark besides. -/
theorem exists_highlight_eq (e : Editor) (m : LineMark) :
    ∃ mark, (e.highlight m).1 = { (e.markActive m).1 with mark } := by
  unfold highlight
  split
  · next marked heq => exact ⟨some m, by rw [heq]⟩
  · exact ⟨(e.markActive m).1.mark, rfl⟩

section Highlight

variable (h : e.Coherent) (ha : e.language.CommentApart) (m : LineMark)

include h ha

/-- What becomes of a request hangs on the script and on the remembered mark. -/
theorem Coherent.outcome_markActive :
    (e.markActive m).2 = m.outcome e.commandNumbers e.mark := by
  rw [h.shows_script.outcome_markActive ha m, h.shownMark_eq]

/-- The mark after a request. -/
theorem Coherent.mark_highlight :
    (e.highlight m).1.mark = m.shownAfter e.commandNumbers e.mark := by
  have houtcome := h.outcome_markActive ha m
  have hkept := mark_markActive e m
  unfold highlight LineMark.shownAfter
  split
  · next marked heq =>
    rw [heq] at houtcome
    rw [← houtcome, if_pos rfl]
  · next hne =>
    rw [← houtcome, if_neg fun happlied => hne _ (Prod.ext rfl happlied), hkept]

/-- A request for a mark keeps an editor coherent. -/
theorem Coherent.highlight : (e.highlight m).1.Coherent := by
  have hredrawn := redrawn_highlight e m
  obtain ⟨mark, hactive⟩ := exists_highlight_eq e m
  refine ⟨?_, ?_, ?_, ?_, ?_⟩
  · rw [hactive]
    exact h.shows_script.markActive m
  · have hshown : (e.highlight m).1.shownMark? = (e.markActive m).1.shownMark? := by
      rw [hactive]
      rfl
    rw [hshown, h.shows_script.shownMark?_markActive ha m, h.shownMark_eq, h.mark_highlight ha m]
  · intro m' hm'
    rw [h.mark_highlight ha m, LineMark.shownAfter] at hm'
    rw [hredrawn.commandNumbers_eq]
    split at hm'
    · next happlied =>
      obtain rfl := Option.mem_some_iff.1 hm'
      by_contra hline
      rw [LineMark.outcome_of_not_mem hline] at happlied
      exact absurd happlied (by decide)
    · exact h.mark_mem m' hm'
  · rw [hredrawn.textLocked_eq, hredrawn.locked_eq, h.textLocked_eq]
  · rw [hredrawn.blockLocked_eq, hredrawn.locked_eq, h.blockLocked_eq]

end Highlight

/-- Taking the mark away leaves none, and keeps an editor coherent. -/
theorem Coherent.clearHighlight (h : e.Coherent) : e.clearHighlight.Coherent := by
  have hredrawn := redrawn_clearHighlight e
  have hshows := h.shows_script
  obtain ⟨language, buffer, mode, textView, blockView, locked, mark, slotTaken⟩ := e
  refine ⟨?_, ?_, by simp [Editor.clearHighlight], ?_, ?_⟩
  · exact ShowsText.clearHighlight hshows
  · cases mode with
    | text => exact textView.mark?_clearMark
    | block => exact blockView.mark?_clearMark
  · rw [hredrawn.textLocked_eq, hredrawn.locked_eq]
    exact h.textLocked_eq
  · rw [hredrawn.blockLocked_eq, hredrawn.locked_eq]
    exact h.blockLocked_eq

theorem Coherent.setLocked (h : e.Coherent) (locked : Bool) : (e.setLocked locked).Coherent := by
  have hshows : e.ShowsText e.content := h.shows_script
  exact ⟨hshows.setLocked locked, h.shownMark_eq, h.mark_mem, rfl, rfl⟩

end Editor

end StepScript
