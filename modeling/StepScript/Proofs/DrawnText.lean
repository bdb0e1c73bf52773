import StepScript.Proofs.EditorActions

/-!
# What was drawn last

The buffer of an editor may also be reached through a **handle** of its own, without the editor. The
active view is drawn from the buffer when the editor makes an edit and when its mode is switched,
and at no other time; so it always shows the text that was **drawn last**. That is the text of the
script as long as the text changes through the editor alone. A text that a handle brings, or a
reload through a handle, is not drawn, and until the next edit or switch the view may be stale.

Main statements:

* `Editor.ShowsText.actShared` — what an action does to what is shown;
* `Editor.drawnLast_runShared` — what the active view shows, and when it shows the script;
* `Editor.not_showsScript_reload` — a stale view.
-/

set_option autoImplicit false

namespace StepScript

/-! ## Editors and handles -/

/-- One thing that is done with an editor, or with its buffer through a handle. -/
inductive SharedAction where
  | editor (a : EditorAction)
  | handle (a : BufferAction) (d : Disk)

namespace SharedAction

/-- Whether an action leaves the text alone, or changes it through the editor. -/
def throughEditor : SharedAction → Bool
  | editor _ => true
  | handle a _ => a.keepsText

/-- Whether an action of this editor draws the active view: a switch of the mode, or an edit that
changes something. -/
def draws (e : Editor) : SharedAction → Bool
  | editor (.edit x) =>
    match (e.edit x).2 with
    | .ok changed => changed
    | .error _ => false
  | editor (.switchMode _) | editor .toggleMode => true
  | _ => false

end SharedAction

namespace Editor

def actShared (e : Editor) : SharedAction → Editor
  | .editor a => e.act a
  | .handle a d => e.mapBuffer fun b => (b.perform d a).buffer

def runShared (e : Editor) (as : List SharedAction) : Editor :=
  as.foldl actShared e

/-- The text that is drawn last in some actions, where `drawn` is the one that was drawn before. -/
def drawnText (e : Editor) (drawn : List Char) : List SharedAction → List Char
  | [] => drawn
  | a :: as =>
    (e.actShared a).drawnText (if a.draws e then (e.actShared a).content else drawn) as

variable {e : Editor} {text : List Char}

/-! ## What each action shows -/

/-- An edit draws the script that it leaves, or leaves the editor as it is. -/
theorem edit_cases (e : Editor) (x : EditorEdit) :
    (SharedAction.draws e (.editor (.edit x)) = true ∧ ∃ s, (e.edit x).1 = e.commit s) ∨
      SharedAction.draws e (.editor (.edit x)) = false ∧ (e.edit x).1 = e := by
  have hedit := edit_eq e x
  rw [SharedAction.draws]
  split at hedit
  · rw [hedit]
    exact Or.inr ⟨rfl, rfl⟩
  · split at hedit
    · rw [hedit]
      exact Or.inr ⟨rfl, rfl⟩
    · split at hedit
      · rw [hedit]
        exact Or.inr ⟨rfl, rfl⟩
      · rw [hedit]
        exact Or.inr ⟨rfl, rfl⟩
      · next s _ =>
        rw [hedit]
        exact Or.inl ⟨rfl, s, rfl⟩

/-- A switch of the mode draws the script, whether or not the mode was another one. -/
theorem showsText_switchMode (e : Editor) (mode : EditorMode) :
    (e.switchMode mode).ShowsText (e.switchMode mode).content := by
  have hredrawn := redrawn_render { e with mode }
  rw [switchMode, hredrawn.content_eq]
  exact showsText_render { e with mode }

/-- A text that is committed is drawn. -/
theorem showsText_commit (e : Editor) (s : List Char) :
    (e.commit s).ShowsText (e.commit s).content := by
  have hredrawn := redrawn_render { e with buffer := e.buffer.update true s }
  rw [commit, hredrawn.content_eq]
  exact showsText_render { e with buffer := e.buffer.update true s }

/-- **What is drawn last is shown**, and nothing else. -/
theorem ShowsText.actShared (h : e.ShowsText text) (a : SharedAction) :
    (e.actShared a).ShowsText (if a.draws e then (e.actShared a).content else text) := by
  cases a with
  | handle a d => exact h
  | editor a =>
      cases a with
      | edit x =>
          rcases edit_cases e x with ⟨hdraws, s, hcommit⟩ | ⟨hdraws, hself⟩
          · rw [if_pos hdraws]
            show ((e.edit x).1).ShowsText ((e.edit x).1).content
            rw [hcommit]
            exact showsText_commit e s
          · rw [if_neg (by rw [hdraws]; decide)]
            show ((e.edit x).1).ShowsText text
            rw [hself]
            exact h
      | beginEdit =>
          show (e.act .beginEdit).ShowsText text
          rcases act_beginEdit e with hx | hx
          · rw [hx]
            exact h
          · rw [hx]
            exact h
      | endEdit => exact h
      | switchMode mode => exact showsText_switchMode e mode
      | toggleMode => exact showsText_switchMode e e.mode.toggle
      | setLocked locked => exact h.setLocked locked
      | highlight m =>
          obtain ⟨mark, hactive⟩ := exists_highlight_eq e m
          show (e.highlight m).1.ShowsText text
          rw [hactive]
          exact h.markActive m
      | clearHighlight => exact h.clearHighlight
      | editLayers edits => exact h.editLayers edits
      | upkeep u => exact h

theorem ShowsText.runShared (h : e.ShowsText text) (as : List SharedAction) :
    (e.runShared as).ShowsText (e.drawnText text as) := by
  induction as generalizing e text with
  | nil => exact h
  | cons a as ih => exact ih (h.actShared a)

/-! ## When the view is stale -/

/-- An action that draws nothing leaves the text alone, unless a handle brings another one. -/
theorem content_actShared {a : SharedAction} (hdraws : a.draws e = false)
    (h : a.throughEditor = true) : (e.actShared a).content = e.content := by
  cases a with
  | handle a d => exact Buffer.content_perform h
  | editor a =>
      cases a with
      | edit x =>
          rcases edit_cases e x with ⟨hdraws', -⟩ | ⟨-, hself⟩
          · rw [hdraws] at hdraws'
            cases hdraws'
          · show ((e.edit x).1).content = e.content
            rw [hself]
      | beginEdit =>
          show (e.act .beginEdit).content = e.content
          rcases act_beginEdit e with hx | hx
          · rw [hx]
          · rw [hx]
            rfl
      | switchMode mode => cases hdraws
      | toggleMode => cases hdraws
      | highlight m => exact (redrawn_highlight e m).content_eq
      | upkeep u => exact e.buffer.content_upkeep u
      | _ => rfl

theorem drawnText_eq_content {as : List SharedAction} (h : ∀ a ∈ as, a.throughEditor = true) :
    e.drawnText e.content as = (e.runShared as).content := by
  induction as generalizing e with
  | nil => rfl
  | cons a as ih =>
      have hfirst := h a List.mem_cons_self
      have hrest := ih (e := e.actShared a) fun a' ha' => h a' (List.mem_cons_of_mem a ha')
      rw [drawnText]
      cases hdraws : a.draws e with
      | true => exact hrest
      | false =>
          rw [if_neg (by decide), ← content_actShared hdraws hfirst]
          exact hrest

/-- A view that shows a text shows the script exactly if the text is the script, or, for blocks, if
it reads as the same commands. -/
theorem ShowsText.showsScript_iff (h : e.ShowsText text) :
    e.ShowsScript ↔ match e.mode with
      | .text => text = e.content
      | .block => Script.parse e.language text = Script.parse e.language e.content := by
  obtain ⟨language, buffer, mode, textView, blockView, locked, mark, slotTaken⟩ := e
  cases mode with
  | text =>
      have hshows : textView.Shows language text := h
      constructor
      · intro hscript
        have hcurrent : textView.Shows language buffer.content := hscript
        exact hshows.text_eq.symm.trans hcurrent.text_eq
      · rintro rfl
        exact h
  | block =>
      have hshows : blockView.Shows language text := h
      constructor
      · intro hscript
        have hcurrent : blockView.Shows language buffer.content := hscript
        have hblocks := congrArg (List.map Block.command)
          (hshows.blocks_eq.symm.trans hcurrent.blocks_eq)
        rw [BlockView.map_command_blocksFrom, BlockView.map_command_blocksFrom] at hblocks
        exact hblocks
      · intro hparse
        have hcurrent : blockView.Shows language buffer.content :=
          ⟨hshows.blocks_eq.trans (congrArg (BlockView.blocksFrom 0) hparse)⟩
        exact hcurrent

/-- What is promised of an editor and of the actions that are done with it. -/
structure DrawnLast (e : Editor) (as : List SharedAction) : Prop where
  /-- The active view shows the text that was drawn last. -/
  shows : (e.runShared as).ShowsText (e.drawnText e.content as)
  /-- Block number `i` of an active block view is the command number `i` of that text. -/
  blocks : (e.runShared as).mode = .block → ∀ (i : Nat) (block : Block),
    (e.runShared as).blockView.blocks[i]? = some block → block.index = i ∧
      (Script.parse (e.runShared as).language (e.drawnText e.content as))[i]? = some block.command
  /-- So the view shows the script exactly if that text is still the script, or, for blocks, if it
  still reads as the same commands. -/
  current_iff : (e.runShared as).ShowsScript ↔ match (e.runShared as).mode with
    | .text => e.drawnText e.content as = (e.runShared as).content
    | .block => Script.parse (e.runShared as).language (e.drawnText e.content as) =
        Script.parse (e.runShared as).language (e.runShared as).content
  /-- It does as long as the text changes through the editor alone. -/
  current : (∀ a ∈ as, a.throughEditor = true) → (e.runShared as).ShowsScript
  /-- It does after every switch of the mode, whatever a handle has done, and whether or not the
  mode was another one. -/
  redrawn : ∀ mode, ((e.runShared as).switchMode mode).ShowsScript

/-- **The active view shows what was drawn last**, whatever is done with an editor, and with its
buffer through handles. -/
theorem drawnLast_runShared (lang : Language) (buffer : Buffer) (as : List SharedAction) :
    DrawnLast (ofBuffer lang buffer) as := by
  have hcontent : (ofBuffer lang buffer).content = buffer.content := (redrawn_render _).content_eq
  have hstart : (ofBuffer lang buffer).ShowsText (ofBuffer lang buffer).content := by
    rw [hcontent]
    exact showsText_render _
  have hshows := hstart.runShared as
  refine ⟨hshows, fun hmode i block hblock => ?_, hshows.showsScript_iff, fun h => ?_,
    showsText_switchMode _⟩
  · rw [ShowsText, hmode] at hshows
    rw [hshows.blocks_eq] at hblock
    refine ⟨?_, ?_⟩
    · rw [BlockView.index_eq_of_getElem?_blocksFrom hblock, Nat.zero_add]
    · rw [← BlockView.map_command_blocksFrom 0 (Script.parse _ _), List.getElem?_map, hblock]
      rfl
  · rw [drawnText_eq_content h] at hshows
    exact hshows

/-- A stale view: an edit is drawn, and a reload through a handle takes it back from the script, but
not from the view. The first block then stands for a command that is gone, and its index for another
one. -/
theorem not_showsScript_reload :
    let raw := "步骤:\n返回".toList
    let d : Disk := [(["a.tks".toList], .file (.text raw))]
    let as : List SharedAction :=
      [.editor (.edit (.setText "步骤:\n等待 [1]\n返回".toList)), .handle .reload d]
    ∃ e, openFile .standard .standard "a.tks".toList d = .ok e ∧
      (e.runShared as).mode = .block ∧ (e.runShared as).content = raw ∧
        (e.runShared as).commands.map Command.keyword = [.back] ∧
        ((e.runShared as).blockView.blocks.map fun b => b.command.keyword) = [.wait, .back] ∧
        ¬ (e.runShared as).ShowsScript := by
  intro raw d as
  refine ⟨_, rfl, rfl, rfl, by decide, by decide, ?_⟩
  intro hscript
  have hblocks := congrArg List.length (BlockView.Shows.blocks_eq hscript)
  exact absurd hblocks (by decide)

end Editor

end StepScript
