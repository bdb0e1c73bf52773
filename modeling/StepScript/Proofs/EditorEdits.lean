import StepScript.Proofs.EditorMarks

/-!
# Edits of an editor

An **edit** is one of the ways to change the script of an editor: a new text, or a block edit. It
finds a new text, or none, or an error, without touching the editor; only then is the text committed.
So an edit is all or nothing, and the slot for block edits is given back in every case, but never by
an edit that did not get it.

Main statements:

* `Editor.edit_eq` — what an edit does;
* `Editor.updatedOnce_commit` — what a committed text changes;
* `Editor.allOrNothing_edit` — an edit is all or nothing.
-/

set_option autoImplicit false

namespace StepScript

/-! ## Edits -/

/-- One way to change the script of an editor. -/
inductive EditorEdit where
  | setText (text : List Char)
  | append (c : Command)
  | insert (c : Command) (index : Nat)
  | remove (index : Nat)
  | reorder (start target : Nat)
  | dropBlock (start boundary : Nat)
  | updateParam (index : Nat) (name value : List Char)

namespace EditorEdit

/-- Whether an edit is a block edit, for which the slot is taken. -/
def isBlockEdit : EditorEdit → Bool
  | setText _ => false
  | _ => true

/-- The text that an edit finds for a script: an error, nothing to change, or a new text. -/
def change (lang : Language) (script : List Char) :
    EditorEdit → Except EditError (Option (List Char))
  | setText text => .ok (if script = text then none else some text)
  | append c => .ok (some (Script.append lang script c))
  | insert c index => (Script.insert lang script c index).map some
  | remove index => (Script.remove lang script index).map some
  | reorder start target => .ok (Script.reorder lang script start target)
  | dropBlock start boundary => Editor.dropChange lang script start boundary
  | updateParam index name value => (Script.updateParam lang script index name value).map some

end EditorEdit

namespace Editor

/-! ## Drops -/

section Drops

variable {lang : Language} {script : List Char} {start boundary : Nat}

theorem dropChange_of_lt (h : boundary < Script.count lang script) :
    dropChange lang script start boundary = .ok (Script.reorder lang script start boundary) :=
  if_pos h

/-- Behind the last block, the last one stays where it is, and every other one is moved. -/
theorem dropChange_of_le (h : Script.count lang script ≤ boundary)
    (hstart : start + 1 < UInt64.size) :
    dropChange lang script start boundary =
      if Script.count lang script ≤ start + 1 then .ok none else moveLast lang script start := by
  rw [dropChange, if_neg (Nat.not_lt.2 h), nextIndex?_of_lt hstart]

theorem dropChange_eq_overflow (h : Script.count lang script ≤ boundary)
    (hstart : nextIndex? start = none) :
    dropChange lang script start boundary = .error .overflow := by
  rw [dropChange, if_neg (Nat.not_lt.2 h), hstart]

/-- A drop that finds a text moves a block in front of another one, or behind all others. -/
theorem reorder_or_moveLast_of_dropChange {text : List Char}
    (h : dropChange lang script start boundary = .ok (some text)) :
    boundary < Script.count lang script ∧ Script.reorder lang script start boundary = some text ∨
      Script.count lang script ≤ boundary ∧ start + 1 < Script.count lang script ∧
        moveLast lang script start = .ok (some text) := by
  rw [dropChange] at h
  split at h
  · next hfront => exact Or.inl ⟨hfront, Except.ok.inj h⟩
  · next hfront =>
    split at h
    · cases h
    · next hnext =>
      obtain rfl := eq_of_nextIndex?_eq_some hnext
      split at h
      · cases h
      · next hlast => exact Or.inr ⟨Nat.not_lt.1 hfront, Nat.not_le.1 hlast, h⟩

end Drops

/-! ## Edits of an editor -/

def edit (e : Editor) : EditorEdit → Editor × Except EditError Bool
  | .setText text => ((e.setText text).1, (e.setText text).2.map fun _ => e.content ≠ text)
  | .append c => e.append c
  | .insert c index => e.insert c index
  | .remove index => e.remove index
  | .reorder start target => e.reorder start target
  | .dropBlock start boundary => e.dropBlock start boundary
  | .updateParam index name value => e.updateParam index name value

/-! ## What an edit does -/

/-- The slot makes no difference to what is drawn. -/
theorem render_setSlot (e : Editor) (slotTaken : Bool) :
    ({ e with slotTaken } : Editor).render = { e.render with slotTaken } := by
  have hdrawn : ({ e with slotTaken } : Editor).drawActive = { e.drawActive with slotTaken } := by
    unfold drawActive
    cases e.mode <;> rfl
  have hmarked : ∀ (drawn : Editor) (m : LineMark),
      ({ drawn with slotTaken } : Editor).markActive m =
        ({ (drawn.markActive m).1 with slotTaken }, (drawn.markActive m).2) := by
    intro drawn m
    unfold markActive
    cases drawn.mode <;> rfl
  rw [render_eq, render_eq]
  obtain ⟨language, buffer, mode, textView, blockView, locked, mark, taken⟩ := e
  cases mark with
  | none => exact hdrawn
  | some m =>
      dsimp only
      rw [hdrawn, hmarked]
      split <;> rfl

/-- A block edit with the slot free leaves it free, so that only the text makes a difference. -/
theorem blockEdit_eq (e : Editor) (change : List Char → Except EditError (Option (List Char))) :
    e.blockEdit change =
      if e.locked then (e, .error .locked)
      else if e.slotTaken then (e, .error .busy)
      else
        match change e.content with
        | .error err => (e, .error err)
        | .ok none => (e, .ok false)
        | .ok (some text) => (e.commit text, .ok true) := by
  cases hlocked : e.locked with
  | true => simp [blockEdit, beginEdit, hlocked]
  | false =>
      cases hslot : e.slotTaken with
      | true => simp [blockEdit, beginEdit, hlocked, hslot]
      | false =>
          have hfree : ∀ e' : Editor, e'.slotTaken = false → { e' with slotTaken := false } = e' := by
            rintro ⟨_, _, _, _, _, _, _, _⟩ rfl
            rfl
          -- giving the slot back undoes taking it, also when a text was drawn in between
          have hback : ({ e with slotTaken := true } : Editor).endEdit = e := hfree e hslot
          have hcommit : ∀ text, (({ e with slotTaken := true } : Editor).commit text).endEdit =
              e.commit text := by
            intro text
            let updated : Editor := { e with buffer := e.buffer.update true text }
            calc (({ e with slotTaken := true } : Editor).commit text).endEdit
                = { ({ updated with slotTaken := true } : Editor).render with
                    slotTaken := false } := rfl
              _ = ({ updated with slotTaken := false } : Editor).render := by
                  rw [render_setSlot, render_setSlot]
              _ = e.commit text := by
                  rw [hfree updated hslot]
                  rfl
          have hcontent : ({ e with slotTaken := true } : Editor).content = e.content := rfl
          have hbegin : e.beginEdit = .ok { e with slotTaken := true } := by
            rw [beginEdit, hlocked, hslot]
            rfl
          rw [blockEdit, hbegin, if_neg Bool.false_ne_true, if_neg Bool.false_ne_true]
          dsimp only
          rw [hcontent]
          cases change e.content with
          | error err => exact Prod.ext hback rfl
          | ok answer =>
              cases answer with
              | none => exact Prod.ext hback rfl
              | some text => exact Prod.ext (hcommit text) rfl

/-- A block edit is made in the slot, with the text that it finds. -/
theorem edit_of_isBlockEdit (e : Editor) {x : EditorEdit} (h : x.isBlockEdit = true) :
    e.edit x = e.blockEdit fun s => x.change e.language s := by
  cases x with
  | setText text => simp [EditorEdit.isBlockEdit] at h
  | append c => rfl
  | insert c index => rfl
  | remove index => rfl
  | reorder start target => rfl
  | dropBlock start boundary => rfl
  | updateParam index name value => rfl

/-- **What an edit does.** It is refused while the editor is locked, and a block edit while the slot
is taken; otherwise the text that it finds is committed. -/
theorem edit_eq (e : Editor) (x : EditorEdit) :
    e.edit x =
      if e.locked then (e, .error .locked)
      else if x.isBlockEdit && e.slotTaken then (e, .error .busy)
      else
        match x.change e.language e.content with
        | .error err => (e, .error err)
        | .ok none => (e, .ok false)
        | .ok (some text) => (e.commit text, .ok true) := by
  cases hblock : x.isBlockEdit with
  | true => rw [edit_of_isBlockEdit e hblock, blockEdit_eq, Bool.true_and]
  | false =>
      -- a new text is the only edit that needs no slot
      obtain ⟨text, rfl⟩ : ∃ text, x = .setText text := by
        cases x with
        | setText text => exact ⟨text, rfl⟩
        | _ => simp [EditorEdit.isBlockEdit] at hblock
      rw [Bool.false_and, edit, setText, EditorEdit.change]
      cases e.locked with
      | true => rfl
      | false => by_cases hsame : e.content = text <;> simp [hsame, Except.map]

/-! ## Committed texts -/

/-- An editor after **one update** of its script: one new version, of which every subscriber was
told once. Nothing but the script, its views and the mark is touched. -/
structure UpdatedOnce (e e' : Editor) (text : List Char) : Prop where
  content_eq : e'.content = LineEnding.normalize text
  version_eq : e'.buffer.version = e.buffer.version + 1
  dirty_eq : e'.buffer.dirty = true
  delivered_eq : e'.buffer.delivered = e.buffer.delivered ++
    e.buffer.subscribers.map fun name => ⟨name, .changed (e.buffer.version + 1)⟩
  language_eq : e'.language = e.language
  mode_eq : e'.mode = e.mode
  locked_eq : e'.locked = e.locked

/-- A committed text is one update. -/
theorem updatedOnce_commit (e : Editor) (text : List Char) :
    UpdatedOnce e (e.commit text) text := by
  have h := redrawn_render { e with buffer := e.buffer.update true text }
  have hbuffer : (e.commit text).buffer = e.buffer.update true text := h.buffer_eq
  refine ⟨h.content_eq, ?_, ?_, ?_, h.language_eq, h.mode_eq, h.locked_eq⟩
  · rw [hbuffer]
    rfl
  · rw [hbuffer]
    rfl
  · rw [hbuffer]
    rfl

theorem slotTaken_commit (e : Editor) (text : List Char) :
    (e.commit text).slotTaken = e.slotTaken :=
  (redrawn_render { e with buffer := e.buffer.update true text }).slotTaken_eq

/-! ## All or nothing -/

/-- What is promised of an edit `x` of an editor `e` that leaves the editor `e'` behind. -/
structure AllOrNothing (e : Editor) (x : EditorEdit) (e' : Editor)
    (answer : Except EditError Bool) : Prop where
  /-- An edit that fails changes nothing. -/
  unchanged_of_error : ∀ err, answer = .error err → e' = e
  /-- An edit that says that there is nothing to do changes nothing. -/
  unchanged_of_false : answer = .ok false → e' = e
  /-- An edit that says that it changed something made one update, with the text that it found. -/
  updated_of_true : answer = .ok true →
    ∃ text, x.change e.language e.content = .ok (some text) ∧ UpdatedOnce e e' text
  /-- A locked editor refuses every edit. -/
  locked : e.locked = true → answer = .error .locked
  /-- An editor that is not locked and whose slot is taken refuses every block edit. -/
  busy : e.locked = false → e.slotTaken = true → x.isBlockEdit = true → answer = .error .busy
  /-- No other edit is refused: the answer is what the edit finds for the script. -/
  free : e.locked = false → (x.isBlockEdit && e.slotTaken) = false →
    answer = (x.change e.language e.content).map Option.isSome
  /-- The slot is left as it was found. -/
  slotTaken_eq : e'.slotTaken = e.slotTaken

/-- An edit that leaves the editor as it is keeps every promise but those on its answer. -/
theorem allOrNothing_self {e : Editor} {x : EditorEdit} {answer : Except EditError Bool}
    (hanswer : answer ≠ .ok true) (hlocked : e.locked = true → answer = .error .locked)
    (hbusy : e.locked = false → e.slotTaken = true → x.isBlockEdit = true → answer = .error .busy)
    (hfree : e.locked = false → (x.isBlockEdit && e.slotTaken) = false →
      answer = (x.change e.language e.content).map Option.isSome) :
    AllOrNothing e x e answer :=
  ⟨fun _ _ => rfl, fun _ => rfl, fun h => absurd h hanswer, hlocked, hbusy, hfree, rfl⟩

/-- **All or nothing.** Every edit of every editor either changes nothing or is one update. -/
theorem allOrNothing_edit (e : Editor) (x : EditorEdit) :
    AllOrNothing e x (e.edit x).1 (e.edit x).2 := by
  rw [edit_eq]
  cases hlocked : e.locked with
  | true =>
      exact allOrNothing_self (by simp) (fun _ => rfl) (by simp [hlocked]) (by simp [hlocked])
  | false =>
      have hunlocked : ∀ answer : Except EditError Bool,
          e.locked = true → answer = .error .locked := by simp [hlocked]
      cases hbusy : x.isBlockEdit && e.slotTaken with
      | true =>
          exact allOrNothing_self (by simp) (hunlocked _) (fun _ _ _ => rfl) (by simp [hbusy])
      | false =>
          -- from here on nothing refuses the edit, and its answer is what it finds
          have hfree : ∀ answer : Except EditError Bool, e.locked = false → e.slotTaken = true →
              x.isBlockEdit = true → answer = .error .busy := by
            intro answer _ hslot hblock
            rw [hslot, hblock] at hbusy
            exact Bool.noConfusion hbusy
          cases hchange : x.change e.language e.content with
          | error err =>
              exact allOrNothing_self (by simp) (hunlocked _) (hfree _) fun _ _ => by
                rw [hchange]
                rfl
          | ok found =>
              cases found with
              | none =>
                  exact allOrNothing_self (by simp) (hunlocked _) (hfree _) fun _ _ => by
                    rw [hchange]
                    rfl
              | some text =>
                  refine ⟨by simp, by simp, fun _ => ⟨text, hchange, updatedOnce_commit e text⟩,
                    hunlocked _, hfree _, fun _ _ => ?_, slotTaken_commit e text⟩
                  rw [hchange]
                  rfl

end Editor

end StepScript
