import StepScript.Proofs.Autosave

/-!
# Reloads that fail

A reload stops the timer before it knows whether the file can be read. If the file cannot be read,
the reload is answered with an error that says why, and leaves the text, its version, the dirty mark,
the line ending and the subscribers as they are; nobody is told anything. But the timer stays
stopped. So a failed reload changes nothing exactly if no timer was running; otherwise the text that
waited is not saved any more, and the buffer stays dirty until something else saves it.

Main statements:

* `Buffer.autosaves_of_idle` — without a timer, only a new text is saved;
* `Buffer.failedReload_of_read` — what a failed reload leaves as it is, and what it does not.
-/

set_option autoImplicit false

namespace StepScript

namespace Buffer

variable {b : Buffer} {d : Disk} {os : List Occasion}

/-! ## Buffers without a timer -/

/-- An action that brings no text for the timer does not start it. -/
theorem timer_after_of_idle (hidle : b.timer = none) {o : Occasion}
    (h : o.action.timedText? = none) : (b.after o).timer = none := by
  obtain ⟨a, d⟩ := o
  rw [after, timer_perform, hidle]
  cases a with
  | update timed text =>
      cases timed with
      | false => simp [BufferAction.timerAfter]
      | true => cases h
  | saveRacing text => cases h
  | _ => rfl

/-- Without a timer, nothing is saved by itself until a new text is brought. -/
theorem autosaves_of_idle (hidle : b.timer = none) (h : ∀ o ∈ os, o.action.timedText? = none)
    (now : Nat) : b.autosaves now os = [] := by
  induction os generalizing b now with
  | nil => rfl
  | cons o os ih =>
      obtain ⟨ho, hos⟩ := List.forall_mem_cons.1 h
      have hnone : b.autosave? now o.action = none := by
        by_contra hsome
        obtain ⟨x, hx⟩ := Option.ne_none_iff_exists'.1 hsome
        obtain ⟨_, left, -, ht, -⟩ := autosave?_eq_some_iff.1 hx
        cases hidle.symm.trans ht
      rw [autosaves, hnone, ih (timer_after_of_idle hidle ho) hos]
      rfl

/-- Without a timer, the text and the dirty mark stay as they are while time passes. -/
theorem sameText_history_of_idle (hidle : b.timer = none)
    (h : ∀ o ∈ os, o.action.leavesTimer = true) : SameText b (b.history os) := by
  induction os generalizing b with
  | nil => exact SameText.refl b
  | cons o os ih =>
      obtain ⟨ho, hos⟩ := List.forall_mem_cons.1 h
      obtain ⟨a, d⟩ := o
      cases a with
      | subscribe name =>
          have hsame : SameText b (b.subscribe name) := ⟨rfl, rfl, rfl, rfl, rfl, rfl⟩
          exact hsame.trans (ih (b := b.subscribe name) hidle hos)
      | advance ms =>
          have hafter : b.after ⟨.advance ms, d⟩ = b := by
            show (b.advance d ms).1 = b
            rw [advance, hidle]
          rw [history_cons, hafter]
          exact ih hidle hos
      | _ => cases ho

/-- A text that is not saved yet is saved when the timer ends. -/
theorem autosaves_advance {left ms : Nat} (htimer : b.timer = some left) (hdirty : b.dirty = true)
    (hle : left ≤ ms) (now : Nat) (d : Disk) :
    b.autosaves now [⟨.advance ms, d⟩] = [⟨now + left, b.snapshot.text⟩] := by
  have hsome : b.autosave? now (.advance ms) = some ⟨now + left, b.snapshot.text⟩ :=
    autosave?_eq_some_iff.2 ⟨ms, left, rfl, htimer, hle, hdirty, rfl⟩
  rw [autosaves, hsome]
  rfl

/-! ## Failed reloads -/

/-- What is promised of a reload on a disk on which the file cannot be read. -/
structure FailedReload (b : Buffer) (d : Disk) (fault : FileFault) : Prop where
  /-- The error says why the file cannot be read. -/
  answer_eq : (b.reload d).2 = .error (.read b.file fault)
  /-- The text, its version, the dirty mark and the line ending are what they were. -/
  sameText : SameText b (b.reload d).1
  subscribers_eq : (b.reload d).1.subscribers = b.subscribers
  /-- Nobody is told anything. -/
  delivered_eq : (b.reload d).1.delivered = b.delivered
  /-- Nothing at all is changed exactly if no timer was running. -/
  unchanged_iff : (b.reload d).1 = b ↔ b.timer = none
  /-- A text that was not saved yet would have been saved at the end of the timer. -/
  due : ∀ left, b.timer = some left → b.dirty = true → ∀ now ms d', left ≤ ms →
    b.autosaves now [⟨.advance ms, d'⟩] = [⟨now + left, b.snapshot.text⟩]
  /-- After the reload, nothing is saved by itself until a new text is brought. -/
  lost : ∀ now os, (∀ o ∈ os, o.action.timedText? = none) → (b.reload d).1.autosaves now os = []
  /-- The text stays unsaved while time passes. -/
  unsaved : ∀ os, (∀ o ∈ os, o.action.leavesTimer = true) →
    SameText b ((b.reload d).1.history os)

/-- **A failed reload changes nothing but the timer**, which it stops. -/
theorem failedReload_of_read {fault : FileFault} (h : d.read b.path = .error fault) :
    FailedReload b d fault := by
  have hreload : b.reload d = (b.stopTimer, .error (.read b.file fault)) := by
    rcases b.reload_cases d with ⟨_, _, hok, -⟩ | ⟨fault', hfault, hreload⟩
    · cases h.symm.trans hok
    · obtain rfl := Except.error.inj (h.symm.trans hfault)
      exact hreload
  have hsame := sameText_stopTimer b
  have hidle : b.stopTimer.timer = none := rfl
  refine ⟨by rw [hreload], by rw [hreload]; exact hsame, by rw [hreload]; rfl,
    by rw [hreload]; rfl, ?_, fun left htimer hdirty now ms d' hle => ?_, fun now os hos => ?_,
    fun os hos => ?_⟩
  · rw [hreload]
    constructor
    · intro heq
      rw [← heq]
      rfl
    · intro htimer
      rw [stopTimer, ← htimer]
  · exact autosaves_advance htimer hdirty hle now d'
  · rw [hreload]
    exact autosaves_of_idle hidle hos now
  · rw [hreload]
    exact hsame.trans (sameText_history_of_idle hidle hos)

/-- A text that waits, while the file has come to hold bytes that are no text. -/
theorem failedReload_of_read_binary :
    let b := (create .standard "a.tks".toList "步骤:\r\n返回".toList).update true "步骤:".toList
    let d : Disk := [(["a.tks".toList], .file .binary)]
    d.read b.path = .error .notText ∧ FailedReload b d .notText ∧ b.timer = some 1000 ∧
      (b.reload d).1.timer = none := by
  intro b d
  have hread : d.read b.path = .error .notText := rfl
  exact ⟨hread, failedReload_of_read hread, rfl, rfl⟩

/-- A text that was just brought is not saved any more once the file is gone and a reload fails. -/
theorem reload_ne_of_timer :
    let d : Disk := [(["a.tks".toList], .file (.text "步骤:".toList))]
    let b := (create .standard "a.tks".toList "步骤:".toList).update true "步骤:\n返回".toList
    let gone : Disk := []
    load .standard "a.tks".toList d = .ok (create .standard "a.tks".toList "步骤:".toList) ∧
      gone.read b.path = .error .notFound ∧ b.timer = some 1000 ∧ b.dirty = true ∧
      (b.reload gone).1 ≠ b ∧
      b.autosaves 0 [⟨.advance 1500, gone⟩] = [⟨1000, "步骤:\n返回".toList⟩] ∧
      (b.reload gone).1.autosaves 0 [⟨.advance 1500, gone⟩] = [] ∧
      ((b.reload gone).1.history [⟨.advance 1500, gone⟩]).dirty = true := by
  intro d b gone
  refine ⟨rfl, rfl, rfl, rfl, fun h => ?_, by decide, by decide, by decide⟩
  have htimer := congrArg timer h
  cases htimer

end Buffer

end StepScript
