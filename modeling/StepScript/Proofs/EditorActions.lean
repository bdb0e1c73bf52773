import StepScript.Proofs.BufferActions
import StepScript.Proofs.EditorEdits

/-!
# What is done with an editor

An **action** is anything that is done with an editor; an editor is **reachable** if some actions
lead to it from a new one. The text of the script changes in edits alone, and every action draws
what it changes; so a reachable editor is coherent. As long as an editor is locked and is not
unlocked, no action changes its script, and none but those that ask for it changes its mark.

Main statements:

* `Editor.Reachable.coherent` — reachable editors are coherent;
* `Editor.content_act_of_locked`, `Editor.mark_act_of_locked` — what a locked editor keeps.
-/

set_option autoImplicit false

namespace StepScript

/-! ## Upkeep of a buffer -/

/-- One thing that is done with a buffer and leaves its text alone. -/
inductive Upkeep where
  | subscribe (name : Subscriber)
  | dispose
  | save (d : Disk)
  | forceSave (d : Disk)
  /-- Time passes, and the timer may end. -/
  | advance (d : Disk) (ms : Nat)

namespace Buffer

def upkeep (b : Buffer) : Upkeep → Buffer
  | .subscribe name => b.subscribe name
  | .dispose => b.dispose
  | .save d => (b.save d).buffer
  | .forceSave d => (b.forceSave d).buffer
  | .advance d ms => (b.advance d ms).1

/-- Upkeep leaves the text alone. -/
theorem content_upkeep (b : Buffer) (u : Upkeep) : (b.upkeep u).content = b.content := by
  cases u with
  | subscribe name => rfl
  | dispose => rfl
  | save d => exact content_perform (d := d) (a := .save) rfl
  | forceSave d => exact content_perform (d := d) (a := .forceSave) rfl
  | advance d ms => exact content_perform (d := d) (a := .advance ms) rfl

end Buffer

/-! ## Actions -/

/-- One thing that is done with an editor. -/
inductive EditorAction where
  | edit (x : EditorEdit)
  /-- The slot for block edits is asked for. -/
  | beginEdit
  /-- The slot for block edits is given back. -/
  | endEdit
  | switchMode (mode : EditorMode)
  | toggleMode
  | setLocked (locked : Bool)
  | highlight (m : LineMark)
  | clearHighlight
  | editLayers (edits : List Layers.Edit)
  | upkeep (u : Upkeep)

/-- Whether an action asks for a mark, or takes the mark away. -/
def EditorAction.asksForMark : EditorAction → Bool
  | .highlight _ | .clearHighlight => true
  | _ => false

namespace Editor

def act (e : Editor) : EditorAction → Editor
  | .edit x => (e.edit x).1
  | .beginEdit =>
    match e.beginEdit with
    | .ok held => held
    | .error _ => e
  | .endEdit => e.endEdit
  | .switchMode mode => e.switchMode mode
  | .toggleMode => e.toggleMode
  | .setLocked locked => e.setLocked locked
  | .highlight m => (e.highlight m).1
  | .clearHighlight => e.clearHighlight
  | .editLayers edits => (e.editLayers edits).1
  | .upkeep u => e.mapBuffer fun b => b.upkeep u

/-- An editor to which some actions lead from a new one. -/
inductive Reachable (lang : Language) : Editor → Prop
  | ofBuffer (buffer : Buffer) : Reachable lang (.ofBuffer lang buffer)
  | act {e : Editor} (a : EditorAction) (h : Reachable lang e) : Reachable lang (e.act a)

/-! ## Reachable editors -/

variable {e : Editor} {text : List Char}

theorem edit_eq_self_or_commit (e : Editor) (x : EditorEdit) :
    (e.edit x).1 = e ∨ ∃ text, (e.edit x).1 = e.commit text := by
  rw [edit_eq]
  split
  · exact Or.inl rfl
  · split
    · exact Or.inl rfl
    · split
      · exact Or.inl rfl
      · exact Or.inl rfl
      · next text _ => exact Or.inr ⟨text, rfl⟩

theorem act_beginEdit (e : Editor) :
    e.act .beginEdit = e ∨ e.act .beginEdit = { e with slotTaken := true } := by
  cases hlocked : e.locked with
  | true => exact Or.inl (by simp [act, beginEdit, hlocked])
  | false =>
      cases hslot : e.slotTaken with
      | true => exact Or.inl (by simp [act, beginEdit, hlocked, hslot])
      | false => exact Or.inr (by simp [act, beginEdit, hlocked, hslot])

theorem Coherent.setSlot (h : e.Coherent) (slotTaken : Bool) :
    Coherent { e with slotTaken } :=
  ⟨h.shows_script, h.shownMark_eq, h.mark_mem, h.textLocked_eq, h.blockLocked_eq⟩

theorem Coherent.mapBuffer (h : e.Coherent) {f : Buffer → Buffer}
    (hf : (f e.buffer).content = e.buffer.content) : (e.mapBuffer f).Coherent := by
  have hcontent : (e.mapBuffer f).content = e.content := hf
  refine ⟨?_, h.shownMark_eq, ?_, h.textLocked_eq, h.blockLocked_eq⟩
  · have hshows := h.shows_script
    unfold ShowsScript at hshows ⊢
    rw [hcontent]
    exact hshows
  · intro m hm
    rw [commandNumbers, hcontent]
    exact h.mark_mem m hm

/-- Styles are drawn on top of what the view shows. -/
theorem editLayers_eq (v : TextView) (edits : List Layers.Edit) :
    (v.editLayers edits).1 = v ∨
      ∃ layers, (v.editLayers edits).1 = { v with layers, redraws := v.redraws + 1 } := by
  unfold TextView.editLayers
  split
  next layers changed _ =>
    split
    · exact Or.inr ⟨layers, rfl⟩
    · exact Or.inl rfl

theorem ShowsText.editLayers (h : e.ShowsText text) (edits : List Layers.Edit) :
    (e.editLayers edits).1.ShowsText text := by
  have hview : (e.editLayers edits).1 =
      { e with textView := (e.textView.editLayers edits).1 } := rfl
  rcases editLayers_eq e.textView edits with hv | ⟨layers, hv⟩
  · rw [hview, hv]
    exact h
  · rw [hview, hv]
    obtain ⟨language, buffer, mode, textView, blockView, locked, mark, slotTaken⟩ := e
    cases mode with
    | text =>
        have hshows : textView.Shows language text := h
        exact ⟨hshows.text_eq, hshows.commandLines_eq⟩
    | block => exact h

theorem Coherent.editLayers (h : e.Coherent) (edits : List Layers.Edit) :
    (e.editLayers edits).1.Coherent := by
  have hscript : e.ShowsText e.content := h.shows_script
  have hshows := hscript.editLayers edits
  have hview : (e.editLayers edits).1 =
      { e with textView := (e.textView.editLayers edits).1 } := rfl
  rcases editLayers_eq e.textView edits with hv | ⟨layers, hv⟩
  · rw [hview, hv]
    exact h
  · rw [hview, hv] at hshows ⊢
    exact ⟨hshows, h.shownMark_eq, h.mark_mem, h.textLocked_eq, h.blockLocked_eq⟩

theorem Coherent.switchMode (h : e.Coherent) (ha : e.language.CommentApart) (mode : EditorMode) :
    (e.switchMode mode).Coherent :=
  coherent_render (e := { e with mode }) ha h.textLocked_eq h.blockLocked_eq

/-- Every action keeps an editor coherent. -/
theorem Coherent.act (h : e.Coherent) (ha : e.language.CommentApart) (a : EditorAction) :
    (e.act a).Coherent := by
  cases a with
  | edit x =>
      rcases edit_eq_self_or_commit e x with hx | ⟨text, hx⟩
      · rw [Editor.act, hx]
        exact h
      · rw [Editor.act, hx]
        exact coherent_render (e := { e with buffer := e.buffer.update true text }) ha
          h.textLocked_eq h.blockLocked_eq
  | beginEdit =>
      rcases act_beginEdit e with hx | hx
      · rw [hx]
        exact h
      · rw [hx]
        exact h.setSlot true
  | endEdit => exact h.setSlot false
  | switchMode mode => exact h.switchMode ha mode
  | toggleMode => exact h.switchMode ha e.mode.toggle
  | setLocked locked => exact h.setLocked locked
  | highlight m => exact h.highlight ha m
  | clearHighlight => exact h.clearHighlight
  | editLayers edits => exact h.editLayers edits
  | upkeep u => exact h.mapBuffer (f := fun b => b.upkeep u) (e.buffer.content_upkeep u)

theorem language_act (e : Editor) (a : EditorAction) : (e.act a).language = e.language := by
  cases a with
  | edit x =>
      rcases edit_eq_self_or_commit e x with hx | ⟨text, hx⟩
      · rw [act, hx]
      · rw [act, hx]
        exact (updatedOnce_commit e text).language_eq
  | beginEdit => rcases act_beginEdit e with hx | hx <;> rw [hx]
  | endEdit => rfl
  | switchMode mode => exact (redrawn_render { e with mode }).language_eq
  | toggleMode => exact (redrawn_render { e with mode := e.mode.toggle }).language_eq
  | setLocked locked => rfl
  | highlight m => exact (redrawn_highlight e m).language_eq
  | clearHighlight => rfl
  | editLayers edits => rfl
  | upkeep u => rfl

theorem Reachable.language_eq {lang : Language} (h : Reachable lang e) : e.language = lang := by
  induction h with
  | ofBuffer buffer => exact (redrawn_render _).language_eq
  | act a h ih => rw [language_act, ih]

/-- Reachable editors are coherent. -/
theorem Reachable.coherent {lang : Language} (ha : lang.CommentApart) (h : Reachable lang e) :
    e.Coherent := by
  induction h with
  | ofBuffer buffer => exact coherent_render ha rfl rfl
  | act a h ih => exact ih.act (by rw [h.language_eq]; exact ha) a

/-! ## Locked editors -/

/-- A locked editor refuses every edit. -/
theorem edit_of_locked (h : e.locked = true) (x : EditorEdit) :
    e.edit x = (e, .error .locked) := by
  rw [edit_eq, if_pos h]

theorem beginEdit_of_locked (h : e.locked = true) : e.beginEdit = .error .locked := by
  rw [beginEdit, if_pos h]

/-- An editor that refuses every edit, and the slot for block edits too. -/
structure RefusesEdits (e : Editor) : Prop where
  edit_eq : ∀ x, e.edit x = (e, .error .locked)
  beginEdit_eq : e.beginEdit = .error .locked

theorem refusesEdits_of_locked (h : e.locked = true) : e.RefusesEdits :=
  ⟨edit_of_locked h, beginEdit_of_locked h⟩

/-- A locked editor stays locked, and keeps its script, in every action but unlocking it. -/
theorem content_act_of_locked (h : e.locked = true) {a : EditorAction}
    (ha : a ≠ .setLocked false) : (e.act a).locked = true ∧ (e.act a).content = e.content := by
  cases a with
  | edit x =>
      rw [act, edit_of_locked h]
      exact ⟨h, rfl⟩
  | beginEdit =>
      rw [act, beginEdit_of_locked h]
      exact ⟨h, rfl⟩
  | endEdit => exact ⟨h, rfl⟩
  | switchMode mode =>
      have hredrawn := redrawn_render { e with mode }
      exact ⟨hredrawn.locked_eq.trans h, hredrawn.content_eq⟩
  | toggleMode =>
      have hredrawn := redrawn_render { e with mode := e.mode.toggle }
      exact ⟨hredrawn.locked_eq.trans h, hredrawn.content_eq⟩
  | setLocked locked =>
      cases locked with
      | true => exact ⟨rfl, rfl⟩
      | false => exact absurd rfl ha
  | highlight m =>
      have hredrawn := redrawn_highlight e m
      exact ⟨hredrawn.locked_eq.trans h, hredrawn.content_eq⟩
  | clearHighlight => exact ⟨h, rfl⟩
  | editLayers edits => exact ⟨h, rfl⟩
  | upkeep u => exact ⟨h, e.buffer.content_upkeep u⟩

/-- A coherent editor keeps its mark when a view is made active: the view gets the mark back, as its
line is still a command line. -/
theorem Coherent.mark_switchMode (h : e.Coherent) (ha : e.language.CommentApart)
    (mode : EditorMode) : (e.switchMode mode).mark = e.mark := by
  have hdrawn := mark_render (e := { e with mode }) ha
  rw [Editor.switchMode, hdrawn]
  cases hm : e.mark with
  | none => rfl
  | some m =>
      have hline : m.line ∈ e.commandNumbers := h.mark_mem m hm
      exact Option.filter_some_pos (decide_eq_true hline)

/-- A locked editor keeps its mark in every action that neither unlocks it nor asks for a mark. -/
theorem mark_act_of_locked (hcoherent : e.Coherent) (hlang : e.language.CommentApart)
    (h : e.locked = true) {a : EditorAction} (ha : a ≠ .setLocked false)
    (hmark : a.asksForMark = false) : (e.act a).mark = e.mark := by
  cases a with
  | edit x => rw [act, edit_of_locked h]
  | beginEdit => rw [act, beginEdit_of_locked h]
  | endEdit => rfl
  | switchMode mode => exact hcoherent.mark_switchMode hlang mode
  | toggleMode => exact hcoherent.mark_switchMode hlang e.mode.toggle
  | setLocked locked => rfl
  | highlight m => simp [EditorAction.asksForMark] at hmark
  | clearHighlight => simp [EditorAction.asksForMark] at hmark
  | editLayers edits => rfl
  | upkeep u => rfl

end Editor

end StepScript
