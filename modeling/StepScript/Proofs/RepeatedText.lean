import StepScript.Proofs.OpenedEditor

/-!
# The same text again

A text that is brought to an editor is no change if it is the script already. It is compared as it
is brought, while the script has normal line endings. So a text without carriage returns that is
brought again changes nothing, however often; but one with a carriage return is never the script, and
each time that it is brought, the script is replaced by the text that it was: a new version, of which
the subscribers are told, a buffer that is dirty again, a timer that starts afresh, and a view that
is drawn anew.

Main statements:

* `Editor.setText_eq_self_iff` — when a text is no change;
* `Editor.needlessUpdate_commit` — what is changed if the script is committed again;
* `Editor.repeatedText_of_opened` — what becomes of a text that is brought again and again.
-/

set_option autoImplicit false

namespace StepScript.Editor

variable {lang : Language} {e : Editor} {text : List Char}

/-! ## Redraws -/

/-- How often the active view was drawn. -/
def activeRedraws (e : Editor) : Nat :=
  match e.mode with
  | .text => e.textView.redraws
  | .block => e.blockView.redraws

theorem activeRedraws_le_markActive (e : Editor) (m : LineMark) :
    e.activeRedraws ≤ (e.markActive m).1.activeRedraws := by
  obtain ⟨language, buffer, mode, textView, blockView, locked, mark, slotTaken⟩ := e
  cases mode with
  | text =>
      show textView.redraws ≤ (textView.markLine m).1.redraws
      unfold TextView.markLine
      split
      · exact Nat.le_refl _
      · split
        · exact Nat.le_refl _
        · split
          · exact Nat.le_refl _
          · exact Nat.le_succ _
  | block =>
      show blockView.redraws ≤ (blockView.markLine m).1.redraws
      unfold BlockView.markLine
      split
      · exact Nat.le_refl _
      · split
        · exact Nat.le_refl _
        · exact Nat.le_succ _

/-- Drawing is counted. -/
theorem activeRedraws_lt_render (e : Editor) : e.activeRedraws < e.render.activeRedraws := by
  have hdrawn : e.drawActive.activeRedraws = e.activeRedraws + 1 := by
    obtain ⟨language, buffer, mode, textView, blockView, locked, mark, slotTaken⟩ := e
    cases mode <;> rfl
  have hmarked := fun m => activeRedraws_le_markActive e.drawActive m
  rw [render_eq]
  split
  · omega
  · next m _ =>
    have hle := hmarked m
    split
    · show e.activeRedraws < (e.drawActive.markActive m).1.activeRedraws
      omega
    · omega

/-! ## Marks on a script that is drawn again -/

/-- What becomes of a mark on a view that was just drawn hangs on the script alone. -/
theorem outcome_markActive_drawActive {e' : Editor} (hlanguage : e'.language = e.language)
    (hmode : e'.mode = e.mode) (hcontent : e'.content = e.content) (m : LineMark) :
    (e'.drawActive.markActive m).2 = (e.drawActive.markActive m).2 := by
  obtain ⟨language, buffer, mode, textView, blockView, locked, mark, slotTaken⟩ := e
  obtain ⟨language', buffer', mode', textView', blockView', locked', mark', slotTaken'⟩ := e'
  obtain rfl : language' = language := hlanguage
  obtain rfl : mode' = mode := hmode
  replace hcontent : buffer'.content = buffer.content := hcontent
  cases mode' with
  | text =>
      show ((textView'.render language' buffer'.content).markLine m).2 =
        ((textView.render language' buffer.content).markLine m).2
      rw [TextView.markLine_render, TextView.markLine_render, hcontent]
  | block =>
      show ((blockView'.render language' buffer'.content).markLine m).2 =
        ((blockView.render language' buffer.content).markLine m).2
      rw [hcontent]
      unfold BlockView.markLine
      -- no mark is left on either view to refuse the new one
      have hfresh : ∀ v : BlockView,
          m.refusal? (v.render language' buffer.content).mark? = none := fun _ => rfl
      rw [hfresh, hfresh]
      have hblocks : (blockView'.render language' buffer.content).blocks =
          (blockView.render language' buffer.content).blocks := rfl
      rw [hblocks]
      split <;> rfl

/-- Drawing keeps the mark unless the view that is drawn ignores it. -/
theorem mark_render_eq_filter (e : Editor) :
    e.render.mark = e.mark.filter fun m => (e.drawActive.markActive m).2 != .ignored := by
  rw [render_eq]
  cases hm : e.mark with
  | none => exact (mark_drawActive e).trans hm
  | some m =>
      rw [Option.filter_some]
      by_cases hignored : (e.drawActive.markActive m).2 = .ignored
      · simp [hignored]
      · simp [hignored, mark_markActive, mark_drawActive, hm]

/-- A mark that was kept when a script was drawn is kept when the same script is drawn again. -/
theorem mark_render_render {e' : Editor} (hlanguage : e'.language = e.language)
    (hmode : e'.mode = e.mode) (hcontent : e'.content = e.content)
    (hmark : e'.mark = e.render.mark) : e'.render.mark = e.render.mark := by
  rw [mark_render_eq_filter e', hmark, mark_render_eq_filter e, Option.filter_filter]
  congr 1
  funext m
  rw [outcome_markActive_drawActive hlanguage hmode hcontent m, Bool.and_self]

/-! ## Texts that are brought -/

/-- A text that is brought is committed unless it is the script. -/
theorem setText_of_unlocked (h : e.locked = false) (text : List Char) :
    e.setText text = (if e.content = text then e else e.commit text, .ok ()) := by
  rw [setText, h]
  split
  · contradiction
  · split <;> rfl

/-- **A text is no change exactly if it is the script.** -/
theorem setText_eq_self_iff (h : e.locked = false) : (e.setText text).1 = e ↔ e.content = text := by
  rw [setText_of_unlocked h]
  split
  · next hsame => exact iff_of_true rfl hsame
  · next hother =>
    refine iff_of_false (fun heq => ?_) hother
    have hversion := (updatedOnce_commit e text).version_eq
    replace heq : e.commit text = e := heq
    rw [heq] at hversion
    omega

theorem content_setText (he : e.Opened lang) (h : e.locked = false) (text : List Char) :
    (e.setText text).1.content = LineEnding.normalize text := by
  rw [setText_of_unlocked h]
  split
  · next hsame =>
    -- the script has normal endings, and so has the text
    rw [← hsame, LineEnding.normalize_of_not_mem he.normal]
  · exact (updatedOnce_commit e text).content_eq

theorem locked_setText (h : e.locked = false) (text : List Char) :
    (e.setText text).1.locked = false := by
  rw [setText_of_unlocked h]
  split
  · exact h
  · exact (updatedOnce_commit e text).locked_eq.trans h

/-- What is done with an opened editor leaves an opened editor. -/
theorem Opened.actShared (h : e.Opened lang) (a : SharedAction) : (e.actShared a).Opened lang := by
  obtain ⟨options, file, raw, as, rfl⟩ := h
  exact ⟨options, file, raw, as ++ [a], by rw [runShared, runShared, List.foldl_append]; rfl⟩

theorem Opened.setText (h : e.Opened lang) (text : List Char) : (e.setText text).1.Opened lang :=
  h.actShared (.editor (.edit (.setText text)))

/-! ## Needless updates -/

/-- An editor after a **needless update**: the script is what it was, but everything else is done as
if it had changed. -/
structure NeedlessUpdate (e e' : Editor) (text : List Char) : Prop where
  /-- There is a new version, of which every subscriber was told, and the buffer is dirty. -/
  updated : UpdatedOnce e e' text
  content_eq : e'.content = e.content
  /-- The timer starts afresh. -/
  timer_eq : e'.buffer.timer =
    if e.buffer.options.autosave then some e.buffer.options.delay else none
  mark_eq : e'.mark = e.mark
  /-- The active view was drawn anew. -/
  redraws_lt : e.activeRedraws < e'.activeRedraws

/-- **A text that is committed twice** is a needless update the second time. -/
theorem needlessUpdate_commit (e : Editor) (text : List Char) :
    NeedlessUpdate (e.commit text) ((e.commit text).commit text) text := by
  have hfirst := updatedOnce_commit e text
  have hsecond := updatedOnce_commit (e.commit text) text
  let once : Editor := { e with buffer := e.buffer.update true text }
  let twice : Editor := { e.commit text with buffer := (e.commit text).buffer.update true text }
  refine ⟨hsecond, hsecond.content_eq.trans hfirst.content_eq.symm, ?_, ?_, ?_⟩
  · have hbuffer : ((e.commit text).commit text).buffer = (e.commit text).buffer.update true text :=
      (redrawn_render twice).buffer_eq
    rw [hbuffer]
    simp [Buffer.update, Buffer.emit]
  · exact mark_render_render hfirst.language_eq hfirst.mode_eq rfl rfl
  · exact activeRedraws_lt_render twice

/-! ## Texts that are brought again and again -/

/-- An editor to which a text was brought a number of times. -/
def setTextTimes (e : Editor) (text : List Char) : Nat → Editor
  | 0 => e
  | n + 1 => ((e.setTextTimes text n).setText text).1

/-- What a text that is brought again leaves unchanged. -/
theorem setTextTimes_invariant (he : e.Opened lang) (h : e.locked = false) (text : List Char)
    (n : Nat) :
    (e.setTextTimes text n).Opened lang ∧ (e.setTextTimes text n).locked = false := by
  induction n with
  | zero => exact ⟨he, h⟩
  | succ n ih => exact ⟨ih.1.setText text, locked_setText ih.2 text⟩

/-- What is promised of a text that is brought to an editor again and again. -/
structure RepeatedText (e : Editor) (text : List Char) : Prop where
  /-- It is accepted every time. -/
  answer_eq : ∀ n, ((e.setTextTimes text n).setText text).2 = .ok ()
  /-- From the first time on, the script is the text with normal line endings. -/
  content_eq : ∀ n, (e.setTextTimes text (n + 1)).content = LineEnding.normalize text
  /-- From the second time on, nothing at all is changed exactly if the text has no carriage
  return. -/
  unchanged_iff : ∀ n, e.setTextTimes text (n + 2) = e.setTextTimes text (n + 1) ↔ '\r' ∉ text
  /-- If it has one, each time is a needless update. -/
  needless : '\r' ∈ text →
    ∀ n, NeedlessUpdate (e.setTextTimes text (n + 1)) (e.setTextTimes text (n + 2)) text
  /-- Brought with normal line endings the second time, the text changes nothing. -/
  normal : ((e.setText text).1.setText (LineEnding.normalize text)).1 = (e.setText text).1

/-- **A text that is brought again** is no change exactly if it has no carriage return. -/
theorem repeatedText_of_opened (he : e.Opened lang) (hlocked : e.locked = false)
    (text : List Char) : RepeatedText e text := by
  have hinv := setTextTimes_invariant he hlocked text
  have hcontent : ∀ n, (e.setTextTimes text (n + 1)).content = LineEnding.normalize text :=
    fun n => content_setText (hinv n).1 (hinv n).2 text
  refine ⟨fun n => ?_, hcontent, fun n => ?_, fun hreturn n => ?_, ?_⟩
  · rw [setText_of_unlocked (hinv n).2]
  · refine (setText_eq_self_iff (hinv (n + 1)).2).trans ?_
    rw [hcontent n]
    exact ⟨fun h => h ▸ LineEnding.not_mem_normalize text, LineEnding.normalize_of_not_mem⟩
  · -- a text with a carriage return is no script, neither this time nor the time before
    have hcommit : ∀ k, e.setTextTimes text (k + 1) = (e.setTextTimes text k).commit text := by
      intro k
      have hother : (e.setTextTimes text k).content ≠ text := fun hsame =>
        (hinv k).1.normal (by rw [hsame]; exact hreturn)
      rw [setTextTimes, setText_of_unlocked (hinv k).2, if_neg hother]
    rw [hcommit (n + 1), hcommit n]
    exact needlessUpdate_commit _ text
  · exact (setText_eq_self_iff (locked_setText hlocked text)).2 (hcontent 0)

/-- A text with a lone carriage return, which an editor that was unlocked again gets. -/
theorem repeatedText_of_opened_lone :
    let text := "步骤:\r返回".toList
    let e := (ofBuffer .standard (.create .standard "a.tks".toList [])).lock.unlock
    e.Opened .standard ∧ e.locked = false ∧ '\r' ∈ text ∧ RepeatedText e text ∧
      (e.setTextTimes text 3).buffer.version = 3 := by
  intro text e
  have he : e.Opened .standard :=
    ⟨_, _, _, [.editor (.setLocked true), .editor (.setLocked false)], rfl⟩
  exact ⟨he, rfl, by decide, repeatedText_of_opened he rfl text, by decide⟩

/-- A script with CRLF that is brought twice is a new version the second time, too. -/
theorem not_unchanged_crlf :
    let text := "步骤:\r\n返回".toList
    let e := ofBuffer .standard (.create .standard "a.tks".toList "步骤:".toList)
    let once := (e.setText text).1
    let twice := (once.setText text).1
    e.Opened .standard ∧ e.locked = false ∧ (e.setText text).2 = .ok () ∧
      once.content = "步骤:\n返回".toList ∧ twice.content = once.content ∧
      once.buffer.version = 1 ∧ twice.buffer.version = 2 ∧
      once.blockView.redraws = 2 ∧ twice.blockView.redraws = 3 ∧ twice ≠ once := by
  intro text e once twice
  have hversion : twice.buffer.version = 2 := by decide
  refine ⟨⟨_, _, _, [], rfl⟩, by decide, rfl, by decide, by decide, by decide, hversion, by decide,
    by decide, fun heq => ?_⟩
  rw [heq] at hversion
  exact absurd hversion (by decide)

end StepScript.Editor
