import StepScript.Proofs.DrawnText

/-!
# The text of an opened editor

Every text that reaches a buffer is given normal line endings first: when the buffer is created,
when an edit is committed, and when a text comes through a handle or from the file. So the script
of an editor never holds a carriage return, whatever is done with it; and a text that is made of its
characters is committed as it is.

Main statements:

* `Editor.Opened.normal` — the script of an opened editor has normal line endings;
* `Text.mem_iff_exists_line` — the characters of a text are those of its lines.
-/

set_option autoImplicit false

namespace StepScript

open Text

/-! ## The characters of a text -/

namespace Text

variable {d : Char}

theorem mem_joinLines_iff (hd : d ≠ '\n') {lines : List (List Char)} :
    d ∈ joinLines lines ↔ ∃ line ∈ lines, d ∈ line := by
  induction lines with
  | nil => simp [joinLines]
  | cons line rest ih =>
      cases rest with
      | nil => simp [joinLines]
      | cons next rest =>
          rw [joinLines_cons line (List.cons_ne_nil next rest), List.mem_append,
            List.mem_cons, ih]
          simp [hd]

/-- But for the line feeds, the characters of a text are those of its lines. -/
theorem mem_iff_exists_line (hd : d ≠ '\n') {s : List Char} :
    d ∈ s ↔ ∃ line ∈ splitLines s, d ∈ line := by
  rw [← mem_joinLines_iff hd, joinLines_splitLines]

/-- A text whose lines are lines of another text has no character that the other one lacks. -/
theorem not_mem_of_lines_subset (hd : d ≠ '\n') {s t : List Char}
    (h : splitLines t ⊆ splitLines s) (hs : d ∉ s) : d ∉ t := by
  rw [mem_iff_exists_line hd] at hs ⊢
  rintro ⟨line, hline, hmem⟩
  exact hs ⟨line, h hline, hmem⟩

end Text

/-! ## What buffers hold -/

/-- No action brings a carriage return into a buffer. -/
theorem Buffer.normal_perform {b : Buffer} (h : '\r' ∉ b.content) (d : Disk) (a : BufferAction) :
    '\r' ∉ (b.perform d a).buffer.content := by
  have hkept : a.keepsText = true → '\r' ∉ (b.perform d a).buffer.content := fun ha => by
    rw [content_perform ha]
    exact h
  cases a with
  | update timed text => exact LineEnding.not_mem_normalize text
  | saveRacing text =>
      show '\r' ∉ (b.saveRacing d text).buffer.content
      rw [(raced_saveRacing b d text).content_eq]
      exact LineEnding.not_mem_normalize text
  | reload =>
      show '\r' ∉ (b.reload d).1.content
      rcases b.reload_cases d with ⟨raw, _, -, hreload⟩ | ⟨_, -, hreload⟩
      · rw [hreload]
        exact LineEnding.not_mem_normalize raw
      · rw [hreload]
        exact h
  | _ => exact hkept rfl

namespace Editor

variable {e : Editor}

/-- No edit leaves a carriage return in the script. -/
theorem normal_edit (h : '\r' ∉ e.content) (x : EditorEdit) : '\r' ∉ (e.edit x).1.content := by
  rcases edit_eq_self_or_commit e x with hx | ⟨text, hx⟩
  · rw [hx]
    exact h
  · rw [hx, (updatedOnce_commit e text).content_eq]
    exact LineEnding.not_mem_normalize text

theorem normal_actShared (h : '\r' ∉ e.content) (a : SharedAction) :
    '\r' ∉ (e.actShared a).content := by
  cases a with
  | handle a d => exact Buffer.normal_perform h d a
  | editor a =>
      -- all but an edit leaves the script as it is
      have hkept : (e.act a).content = e.content → '\r' ∉ (e.act a).content := fun heq => by
        rw [heq]
        exact h
      cases a with
      | edit x => exact normal_edit h x
      | beginEdit =>
          refine hkept ?_
          rcases act_beginEdit e with hx | hx
          · rw [hx]
          · rw [hx]
            rfl
      | switchMode mode => exact hkept (redrawn_render { e with mode }).content_eq
      | toggleMode => exact hkept (redrawn_render { e with mode := e.mode.toggle }).content_eq
      | highlight m => exact hkept (redrawn_highlight e m).content_eq
      | upkeep u => exact hkept (e.buffer.content_upkeep u)
      | _ => exact hkept rfl

theorem normal_runShared (h : '\r' ∉ e.content) (as : List SharedAction) :
    '\r' ∉ (e.runShared as).content := by
  induction as generalizing e with
  | nil => exact h
  | cons a as ih => exact ih (normal_actShared h a)

theorem language_runShared (e : Editor) (as : List SharedAction) :
    (e.runShared as).language = e.language := by
  induction as generalizing e with
  | nil => rfl
  | cons a as ih =>
      have hfirst : (e.actShared a).language = e.language := by
        cases a with
        | handle a d => rfl
        | editor a => exact language_act e a
      exact (ih (e.actShared a)).trans hfirst

/-! ## Opened editors -/

/-- An editor that was opened for some text, after anything that was done with it, or with its
buffer through handles. -/
def Opened (lang : Language) (e : Editor) : Prop :=
  ∃ options file raw as, e = (ofBuffer lang (.create options file raw)).runShared as

variable {lang : Language}

theorem Opened.language_eq (h : e.Opened lang) : e.language = lang := by
  obtain ⟨options, file, raw, as, rfl⟩ := h
  rw [language_runShared]
  exact (redrawn_render _).language_eq

/-- **The script of an opened editor holds no carriage return.** -/
theorem Opened.normal (h : e.Opened lang) : '\r' ∉ e.content := by
  obtain ⟨options, file, raw, as, rfl⟩ := h
  refine normal_runShared ?_ as
  have hcontent : (ofBuffer lang (.create options file raw)).content = LineEnding.normalize raw :=
    (redrawn_render _).content_eq
  rw [hcontent]
  exact LineEnding.not_mem_normalize raw

end Editor

end StepScript
