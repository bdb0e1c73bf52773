import Mathlib.Data.List.Basic
import StepScript.Proofs.CleanOnDisk

/-!
# Saves that overlap

A save captures the text, writes it and completes, and other things may happen in between: the text
may be replaced, and other saves may go through any of their steps. Nothing makes a save wait for
another one. A save whose text is written while an older text is still to be written **overtakes**
the save of the older text, which then overwrites the newer text; and as a save completes by its own
version alone, the buffer may be clean while its file holds the older text.

Main statements:

* `Desk.Sound.step` — what every step of every save keeps;
* `Desk.overlappingSaves_of_run?` — the file goes from older texts to newer ones exactly when no
  save overtakes another, and then a clean buffer is on disk;
* `Desk.not_onDisk_overtaken` — a clean buffer that is not on disk;
* `Desk.run?_write`, `Desk.run?_saveRacing` — the saves of a buffer, by their steps.
-/

set_option autoImplicit false

namespace StepScript

/-! ## Saves in flight -/

/-- A save that has captured a text and has not completed. -/
structure PendingSave where
  snapshot : Buffer.Snapshot
  /-- Whether the text is written. -/
  written : Bool

/-- A buffer and a disk with saves in flight. -/
structure Desk where
  buffer : Buffer
  disk : Disk
  /-- The saves in flight, in the order in which they started. -/
  saves : List PendingSave
  /-- The versions that the file has held, the one that it holds last. -/
  versions : List Nat

/-- One thing that happens while saves are in flight. -/
inductive SaveEvent where
  | update (timed : Bool) (text : List Char)
  /-- A save starts, on demand or by the timer. -/
  | start (force : Bool)
  /-- The text that a save has captured is written. -/
  | write (index : Nat)
  /-- A save whose text is written completes. -/
  | complete (index : Nat)
  /-- A save whose text is written is given up, as a timer that is stopped gives its save up. -/
  | giveUp (index : Nat)
deriving DecidableEq

namespace Desk

/-- A buffer that was just loaded from a disk, with no save in flight. -/
def opened (b : Buffer) (d : Disk) : Desk :=
  ⟨b, d, [], [b.version]⟩

/-- What is left after an event, unless it cannot happen, or is a write that fails. -/
def step? (k : Desk) : SaveEvent → Option Desk
  | .update timed text => some { k with buffer := k.buffer.update timed text }
  | .start force =>
    let b := k.buffer.stopTimer
    match b.capture? force with
    | none => some { k with buffer := b }
    | some s => some { k with buffer := b, saves := k.saves ++ [⟨s, false⟩] }
  | .write i =>
    match k.saves[i]? with
    | some ⟨s, false⟩ =>
      match k.disk.write k.buffer.path s.text with
      | .ok d =>
        some { k with
          disk := d
          saves := k.saves.set i ⟨s, true⟩
          versions := k.versions ++ [s.version] }
      | .error _ => none
    | _ => none
  | .complete i =>
    match k.saves[i]? with
    | some ⟨s, true⟩ =>
      some { k with buffer := k.buffer.complete s (.ok k.disk), saves := k.saves.eraseIdx i }
    | _ => none
  | .giveUp i =>
    match k.saves[i]? with
    | some ⟨_, true⟩ => some { k with saves := k.saves.eraseIdx i }
    | _ => none

def run? (k : Desk) : List SaveEvent → Option Desk
  | [] => some k
  | e :: es => (k.step? e).bind fun k' => k'.run? es

/-- Something holds in front of every event. -/
def Along (p : Desk → SaveEvent → Prop) (k : Desk) : List SaveEvent → Prop
  | [] => True
  | e :: es => p k e ∧ ∀ k', k.step? e = some k' → Along p k' es

/-- A write overtakes no save of an older text. -/
def InOrder (k : Desk) : SaveEvent → Prop
  | .write i => ∀ s, k.saves[i]? = some s → ∀ s' ∈ k.saves, s'.written = false →
      s.snapshot.version ≤ s'.snapshot.version
  | _ => True

/-- A save starts only if no other one is in flight. -/
def OneByOne (k : Desk) : SaveEvent → Prop
  | .start _ => k.saves = []
  | _ => True

/-- The file has gone from older texts to newer ones. -/
def Ascending (k : Desk) : Prop :=
  k.versions.Pairwise (· ≤ ·)

variable {k k' : Desk} {e : SaveEvent} {es : List SaveEvent}

/-! ## What an event can do -/

/-- **What an event can do.** -/
inductive Change (k : Desk) : SaveEvent → Desk → Prop
  | updated (timed : Bool) (text : List Char) :
      Change k (.update timed text) { k with buffer := k.buffer.update timed text }
  /-- There is nothing to save. -/
  | clean (force : Bool) : Change k (.start force) { k with buffer := k.buffer.stopTimer }
  | started (force : Bool) :
      Change k (.start force)
        { k with
          buffer := k.buffer.stopTimer
          saves := k.saves ++ [⟨k.buffer.snapshot, false⟩] }
  | written {i : Nat} {s : Buffer.Snapshot} {d : Disk} (hs : k.saves[i]? = some ⟨s, false⟩)
      (hwrite : k.disk.write k.buffer.path s.text = .ok d) :
      Change k (.write i)
        { k with
          disk := d
          saves := k.saves.set i ⟨s, true⟩
          versions := k.versions ++ [s.version] }
  | completed {i : Nat} {s : Buffer.Snapshot} (hs : k.saves[i]? = some ⟨s, true⟩) :
      Change k (.complete i)
        { k with
          buffer := k.buffer.complete s (.ok k.disk)
          saves := k.saves.eraseIdx i }
  | givenUp {i : Nat} {s : Buffer.Snapshot} (hs : k.saves[i]? = some ⟨s, true⟩) :
      Change k (.giveUp i) { k with saves := k.saves.eraseIdx i }

theorem change_of_step? (h : k.step? e = some k') : Change k e k' := by
  cases e with
  | update timed text =>
      obtain rfl := Option.some.inj h
      exact .updated timed text
  | start force =>
      simp only [step?] at h
      split at h
      · obtain rfl := Option.some.inj h
        exact .clean force
      · next s hs =>
        obtain rfl := Option.some.inj h
        have hcapture : s = k.buffer.snapshot := by
          simp only [Buffer.capture?, Option.ite_none_right_eq_some, Option.some.injEq] at hs
          exact hs.2.symm
        rw [hcapture]
        exact .started force
  | write i =>
      simp only [step?] at h
      split at h
      · next s hs =>
        split at h
        · next d hwrite =>
          obtain rfl := Option.some.inj h
          exact .written hs hwrite
        · cases h
      · cases h
  | complete i =>
      simp only [step?] at h
      split at h
      · next s hs =>
        obtain rfl := Option.some.inj h
        exact .completed hs
      · cases h
  | giveUp i =>
      simp only [step?] at h
      split at h
      · next s hs =>
        obtain rfl := Option.some.inj h
        exact .givenUp hs
      · cases h

theorem run?_cons (h : k.run? (e :: es) = some k') :
    ∃ next, k.step? e = some next ∧ next.run? es = some k' :=
  Option.bind_eq_some_iff.1 h

/-! ## What every step keeps -/

/-- What holds of a buffer, its disk and its saves in flight, whatever is written when. -/
structure Sound (k : Desk) : Prop where
  normal : '\r' ∉ k.buffer.content
  version_le : ∀ s ∈ k.saves, s.snapshot.version ≤ k.buffer.version
  /-- A save of the version that the buffer has is a save of the text that the buffer has. -/
  text_eq : ∀ s ∈ k.saves, s.snapshot.version = k.buffer.version →
    LineEnding.normalize s.snapshot.text = k.buffer.content
  mem_versions : ∀ s ∈ k.saves, s.written = true → s.snapshot.version ∈ k.versions
  le_version : ∀ v ∈ k.versions, v ≤ k.buffer.version
  /-- The file holds the text of the buffer if it holds its version. -/
  onDisk : k.versions.getLast? = some k.buffer.version → k.buffer.OnDisk k.disk
  /-- The version of a clean buffer was written at some time. -/
  clean : k.buffer.dirty = false → k.buffer.version ∈ k.versions

theorem Sound.eraseIdx (h : k.Sound) (i : Nat) :
    Sound { k with saves := k.saves.eraseIdx i } := by
  have hsub : ∀ s ∈ k.saves.eraseIdx i, s ∈ k.saves := fun s hs =>
    (List.eraseIdx_sublist k.saves i).subset hs
  exact ⟨h.normal, fun s hs => h.version_le s (hsub s hs), fun s hs => h.text_eq s (hsub s hs),
    fun s hs => h.mem_versions s (hsub s hs), h.le_version, h.onDisk, h.clean⟩

/-- A new text has a version that no save has captured and that was never written. -/
theorem Sound.updated (h : k.Sound) (timed : Bool) (text : List Char) :
    Sound { k with buffer := k.buffer.update timed text } := by
  have hbump : (k.buffer.update timed text).version = k.buffer.version + 1 := rfl
  refine ⟨LineEnding.not_mem_normalize text, ?_, ?_, h.mem_versions, ?_, ?_, ?_⟩
  · intro s hs
    have hle := h.version_le s hs
    show s.snapshot.version ≤ (k.buffer.update timed text).version
    omega
  · intro s hs heq
    have hle := h.version_le s hs
    have heq' : s.snapshot.version = (k.buffer.update timed text).version := heq
    omega
  · intro v hv
    have hle := h.le_version v hv
    show v ≤ (k.buffer.update timed text).version
    omega
  · intro hlast
    have hle := h.le_version _ (List.mem_of_getLast? hlast)
    have hle' : (k.buffer.update timed text).version ≤ k.buffer.version := hle
    omega
  · intro hclean
    cases hclean

/-- A save that starts captures the text that the buffer has. -/
theorem Sound.started (h : k.Sound) :
    Sound { k with
      buffer := k.buffer.stopTimer
      saves := k.saves ++ [⟨k.buffer.snapshot, false⟩] } := by
  have hnew : ∀ s ∈ k.saves ++ [⟨k.buffer.snapshot, false⟩],
      s ∈ k.saves ∨ s = ⟨k.buffer.snapshot, false⟩ := by
    intro s hs
    simpa using hs
  refine ⟨h.normal, ?_, ?_, ?_, h.le_version, h.onDisk, h.clean⟩
  · intro s hs
    rcases hnew s hs with hs | rfl
    · exact h.version_le s hs
    · exact Nat.le_refl k.buffer.version
  · intro s hs heq
    rcases hnew s hs with hs | rfl
    · exact h.text_eq s hs heq
    · exact LineEnding.normalize_apply k.buffer.ending h.normal
  · intro s hs hwritten
    rcases hnew s hs with hs | rfl
    · exact h.mem_versions s hs hwritten
    · cases hwritten

/-- A write puts the text of its save on the disk, with the version that was captured. -/
theorem Sound.written (h : k.Sound) {i : Nat} {s : Buffer.Snapshot} {d : Disk}
    (hs : k.saves[i]? = some ⟨s, false⟩) (hwrite : k.disk.write k.buffer.path s.text = .ok d) :
    Sound { k with
      disk := d
      saves := k.saves.set i ⟨s, true⟩
      versions := k.versions ++ [s.version] } := by
  have hmem : (⟨s, false⟩ : PendingSave) ∈ k.saves := List.mem_of_getElem? hs
  have hset : ∀ s' ∈ k.saves.set i ⟨s, true⟩, s' ∈ k.saves ∨ s' = ⟨s, true⟩ := fun s' hs' =>
    List.mem_or_eq_of_mem_set hs'
  have hle : s.version ≤ k.buffer.version := h.version_le _ hmem
  have htext : s.version = k.buffer.version → LineEnding.normalize s.text = k.buffer.content :=
    h.text_eq _ hmem
  refine ⟨h.normal, ?_, ?_, ?_, ?_, ?_, ?_⟩
  · intro s' hs'
    rcases hset s' hs' with hs' | rfl
    · exact h.version_le s' hs'
    · exact hle
  · intro s' hs'
    rcases hset s' hs' with hs' | rfl
    · exact h.text_eq s' hs'
    · exact htext
  · intro s' hs' hwritten
    rcases hset s' hs' with hs' | rfl
    · exact List.mem_append_left _ (h.mem_versions s' hs' hwritten)
    · exact List.mem_append_right _ (List.mem_singleton.2 rfl)
  · intro v hv
    rcases List.mem_append.1 hv with hv | hv
    · exact h.le_version v hv
    · obtain rfl := List.mem_singleton.1 hv
      exact hle
  · intro hlast
    have hversion : s.version = k.buffer.version := by simpa using hlast
    exact ⟨s.text, Disk.read_write hwrite, htext hversion⟩
  · intro hclean
    exact List.mem_append_left _ (h.clean hclean)

/-- A save that completes cleans the buffer only of its own version, which was written. -/
theorem Sound.completed (h : k.Sound) {i : Nat} {s : Buffer.Snapshot}
    (hs : k.saves[i]? = some ⟨s, true⟩) :
    Sound { k with
      buffer := k.buffer.complete s (.ok k.disk)
      saves := k.saves.eraseIdx i } := by
  have hmem : (⟨s, true⟩ : PendingSave) ∈ k.saves := List.mem_of_getElem? hs
  have hfewer := h.eraseIdx i
  refine ⟨h.normal, hfewer.version_le, hfewer.text_eq, hfewer.mem_versions, h.le_version, h.onDisk,
    ?_⟩
  intro hclean
  -- the buffer was clean before, or the save that completes is the one of its version
  have hclean' : (k.buffer.dirty && k.buffer.version != s.version) = false := hclean
  rcases Bool.and_eq_false_iff.1 hclean' with hdirty | hversion
  · exact h.clean hdirty
  · have hsame : k.buffer.version = s.version := by simpa using hversion
    show k.buffer.version ∈ k.versions
    rw [hsame]
    exact h.mem_versions _ hmem rfl

/-- Every step keeps a desk sound. -/
theorem Sound.step (h : k.Sound) (hchange : Change k e k') : k'.Sound := by
  cases hchange with
  | updated timed text => exact h.updated timed text
  | clean force =>
      exact ⟨h.normal, h.version_le, h.text_eq, h.mem_versions, h.le_version, h.onDisk, h.clean⟩
  | started force => exact h.started
  | written hs hwrite => exact h.written hs hwrite
  | completed hs => exact h.completed hs
  | @givenUp i s hs => exact h.eraseIdx i

theorem Sound.run (h : k.Sound) (hrun : k.run? es = some k') : k'.Sound := by
  induction es generalizing k with
  | nil =>
      obtain rfl := Option.some.inj hrun
      exact h
  | cons e es ih =>
      obtain ⟨next, hstep, hrun⟩ := run?_cons hrun
      exact ih (h.step (change_of_step? hstep)) hrun

theorem sound_opened {options : BufferOptions} {file : List Char} {b : Buffer} {d : Disk}
    (h : Buffer.load options file d = .ok b) : (opened b d).Sound := by
  obtain ⟨raw, hread, rfl⟩ := Buffer.exists_raw_of_load h
  refine ⟨LineEnding.not_mem_normalize raw, ?_, ?_, ?_, ?_, ?_, ?_⟩
  · exact fun s hs => nomatch hs
  · exact fun s hs => nomatch hs
  · exact fun s hs => nomatch hs
  · exact fun v hv => Nat.le_of_eq (List.mem_singleton.1 hv)
  · exact fun _ => ⟨raw, hread, rfl⟩
  · exact fun _ => List.mem_singleton.2 rfl

/-! ## A file that goes from older texts to newer ones -/

/-- Every version that the file has held is at most that of a save whose text is still to be
written. -/
def Ahead (k : Desk) : Prop :=
  ∀ s ∈ k.saves, s.written = false → ∀ v ∈ k.versions, v ≤ s.snapshot.version

/-- A step in which no write overtakes a save keeps the file going from older texts to newer
ones. -/
theorem ascending_step (hsound : k.Sound) (hahead : k.Ahead) (hascending : k.Ascending)
    (hchange : Change k e k') (horder : k.InOrder e) : k'.Ahead ∧ k'.Ascending := by
  cases hchange with
  | updated timed text => exact ⟨hahead, hascending⟩
  | clean force => exact ⟨hahead, hascending⟩
  | started force =>
      refine ⟨?_, hascending⟩
      intro s hs hunwritten
      rcases List.mem_append.1 hs with hs | hs
      · exact hahead s hs hunwritten
      · obtain rfl := List.mem_singleton.1 hs
        exact hsound.le_version
  | @written i s d hs hwrite =>
      have hmem : (⟨s, false⟩ : PendingSave) ∈ k.saves := List.mem_of_getElem? hs
      have hnewest : ∀ v ∈ k.versions, v ≤ s.version := hahead _ hmem rfl
      constructor
      · intro s' hs' hunwritten v hv
        rcases List.mem_or_eq_of_mem_set hs' with hs' | rfl
        · rcases List.mem_append.1 hv with hv | hv
          · exact hahead s' hs' hunwritten v hv
          · obtain rfl := List.mem_singleton.1 hv
            exact horder _ hs s' hs' hunwritten
        · cases hunwritten
      · refine List.pairwise_append.2 ⟨hascending, List.pairwise_singleton _ _, ?_⟩
        intro v hv v' hv'
        obtain rfl := List.mem_singleton.1 hv'
        exact hnewest v hv
  | @completed i s hs =>
      exact ⟨fun s' hs' => hahead s' ((List.eraseIdx_sublist k.saves i).subset hs'), hascending⟩
  | @givenUp i s hs =>
      exact ⟨fun s' hs' => hahead s' ((List.eraseIdx_sublist k.saves i).subset hs'), hascending⟩

theorem ascending_run (hsound : k.Sound) (hahead : k.Ahead) (hascending : k.Ascending)
    (hrun : k.run? es = some k') (horder : Along InOrder k es) : k'.Ascending := by
  induction es generalizing k with
  | nil =>
      obtain rfl := Option.some.inj hrun
      exact hascending
  | cons e es ih =>
      obtain ⟨next, hstep, hrun⟩ := run?_cons hrun
      have hchange := change_of_step? hstep
      obtain ⟨hahead', hascending'⟩ := ascending_step hsound hahead hascending hchange horder.1
      exact ih (hsound.step hchange) hahead' hascending' hrun (horder.2 next hstep)

/-- What is left of a save whose text is still to be written: it is still to be written, or was
written since. -/
def Accounts (k k' : Desk) : Prop :=
  ∃ new, k'.versions = k.versions ++ new ∧
    ∀ s ∈ k.saves, s.written = false → s ∈ k'.saves ∨ s.snapshot.version ∈ new

/-- A save stays in flight when another one goes on. -/
theorem mem_set_or_eq {i : Nat} {s s' : PendingSave} (hs : k.saves[i]? = some s)
    (hs' : s' ∈ k.saves) (new : PendingSave) : s' ∈ k.saves.set i new ∨ s' = s := by
  obtain ⟨j, hj⟩ := List.mem_iff_getElem?.1 hs'
  by_cases hij : i = j
  · subst hij
    exact Or.inr (Option.some.inj (hj.symm.trans hs))
  · refine Or.inl (List.mem_of_getElem? (i := j) ?_)
    rw [List.getElem?_set_ne hij]
    exact hj

theorem accounts_step (hchange : Change k e k') : Accounts k k' := by
  -- a save that leaves has been written
  have hleft : ∀ {i : Nat} {s : Buffer.Snapshot}, k.saves[i]? = some ⟨s, true⟩ →
      ∀ s' ∈ k.saves, s'.written = false → s' ∈ k.saves.eraseIdx i := by
    intro i s hs s' hs' hunwritten
    obtain ⟨j, hj⟩ := List.mem_iff_getElem?.1 hs'
    have hne : j ≠ i := by
      rintro rfl
      rw [hs] at hj
      obtain rfl := Option.some.inj hj
      cases hunwritten
    exact List.mem_eraseIdx_iff_getElem?.2 ⟨j, hne, hj⟩
  cases hchange with
  | updated timed text => exact ⟨[], by simp, fun s hs _ => Or.inl hs⟩
  | clean force => exact ⟨[], by simp, fun s hs _ => Or.inl hs⟩
  | started force => exact ⟨[], by simp, fun s hs _ => Or.inl (List.mem_append_left _ hs)⟩
  | @written i s d hs hwrite =>
      refine ⟨[s.version], rfl, ?_⟩
      intro s' hs' _
      rcases mem_set_or_eq hs hs' ⟨s, true⟩ with hs' | rfl
      · exact Or.inl hs'
      · exact Or.inr (List.mem_singleton.2 rfl)
  | completed hs => exact ⟨[], by simp, fun s' hs' hu => Or.inl (hleft hs s' hs' hu)⟩
  | givenUp hs => exact ⟨[], by simp, fun s' hs' hu => Or.inl (hleft hs s' hs' hu)⟩

theorem accounts_run (hrun : k.run? es = some k') : Accounts k k' := by
  induction es generalizing k with
  | nil =>
      obtain rfl := Option.some.inj hrun
      exact ⟨[], by simp, fun s hs _ => Or.inl hs⟩
  | cons e es ih =>
      obtain ⟨next, hstep, hrun⟩ := run?_cons hrun
      obtain ⟨new, hnew, hstay⟩ := accounts_step (change_of_step? hstep)
      obtain ⟨later, hlater, hstay'⟩ := ih hrun
      refine ⟨new ++ later, by rw [hlater, hnew, List.append_assoc], ?_⟩
      intro s hs hunwritten
      rcases hstay s hs hunwritten with hs | hs
      · exact (hstay' s hs hunwritten).imp_right (List.mem_append_right new)
      · exact Or.inr (List.mem_append_left later hs)

/-- If the file has gone from older texts to newer ones and no save is left, no write has overtaken
a save, whose older text would have been written later. -/
theorem inOrder_of_ascending (hrun : k.run? es = some k') (hdone : k'.saves = [])
    (hascending : k'.Ascending) : Along InOrder k es := by
  induction es generalizing k with
  | nil => exact trivial
  | cons e es ih =>
      obtain ⟨next, hstep, hrun⟩ := run?_cons hrun
      refine ⟨?_, fun next' hstep' => ?_⟩
      · cases change_of_step? hstep with
        | @written i s d hs hwrite =>
            intro s₀ hs₀ s' hs' hunwritten
            obtain rfl := Option.some.inj (hs.symm.trans hs₀)
            rcases mem_set_or_eq hs hs' ⟨s, true⟩ with hstays | rfl
            · obtain ⟨later, hlater, hstay⟩ := accounts_run hrun
              have hwritten : s'.snapshot.version ∈ later := by
                rcases hstay s' hstays hunwritten with hleft | hwritten
                · rw [hdone] at hleft
                  cases hleft
                · exact hwritten
              have hpairwise : ((k.versions ++ [s.version]) ++ later).Pairwise (· ≤ ·) :=
                hlater ▸ hascending
              exact (List.pairwise_append.1 hpairwise).2.2 s.version (by simp) _ hwritten
            · exact Nat.le_refl s.version
        | _ => exact trivial
      · obtain rfl := Option.some.inj (hstep.symm.trans hstep')
        exact ih hrun

/-- Saves of which none starts before the other one is over do not overtake each other. -/
theorem inOrder_of_oneByOne (hfew : k.saves.length ≤ 1) (h : Along OneByOne k es) :
    Along InOrder k es := by
  induction es generalizing k with
  | nil => exact trivial
  | cons e es ih =>
      refine ⟨?_, fun next hstep => ?_⟩
      · cases e with
        | write i =>
            intro s hs s' hs' _
            have hmem : s ∈ k.saves := List.mem_of_getElem? hs
            match hsaves : k.saves with
            | [] => simp [hsaves] at hmem
            | [only] =>
                rw [hsaves] at hmem hs'
                obtain rfl := List.mem_singleton.1 hmem
                obtain rfl := List.mem_singleton.1 hs'
                exact Nat.le_refl _
            | _ :: _ :: _ => simp [hsaves] at hfew
        | _ => exact trivial
      · refine ih ?_ (h.2 next hstep)
        cases change_of_step? hstep with
        | updated timed text => exact hfew
        | clean force => exact hfew
        | started force =>
            have hnone : k.saves = [] := h.1
            show (k.saves ++ [_]).length ≤ 1
            rw [hnone]
            exact Nat.le_refl 1
        | written hs hwrite =>
            show (k.saves.set _ _).length ≤ 1
            rw [List.length_set]
            exact hfew
        | completed hs => exact Nat.le_trans (List.length_eraseIdx_le k.saves _) hfew
        | givenUp hs => exact Nat.le_trans (List.length_eraseIdx_le k.saves _) hfew

/-- A file that has gone from older texts to newer ones holds the newest version. -/
theorem getLast?_versions (hsound : k.Sound) (hascending : k.Ascending)
    (hmem : k.buffer.version ∈ k.versions) : k.versions.getLast? = some k.buffer.version := by
  rcases List.eq_nil_or_concat k.versions with hnil | ⟨front, last, hlast⟩
  · rw [hnil] at hmem
    cases hmem
  · rw [List.concat_eq_append] at hlast
    have hle : last ≤ k.buffer.version := hsound.le_version last (by simp [hlast])
    have hge : k.buffer.version ≤ last := by
      rw [Ascending, hlast] at hascending
      rw [hlast] at hmem
      rcases List.mem_append.1 hmem with hfront | hself
      · exact (List.pairwise_append.1 hascending).2.2 _ hfront last (by simp)
      · exact Nat.le_of_eq (List.mem_singleton.1 hself)
    have heq : last = k.buffer.version := by omega
    rw [hlast, heq, List.getLast?_append, List.getLast?_singleton]
    rfl

/-! ## What overlapping saves leave behind -/

/-- What is promised of the desk `k` to which some events lead from `k₀`. -/
structure OverlappingSaves (k₀ : Desk) (es : List SaveEvent) (k : Desk) : Prop where
  /-- As long as no write overtakes a save, the file goes from older texts to newer ones. -/
  ascending : Along InOrder k₀ es → k.Ascending
  /-- When no save is left, this is the only way in which it does. -/
  ascending_iff : k.saves = [] → (k.Ascending ↔ Along InOrder k₀ es)
  /-- If the file has gone from older texts to newer ones, it holds the text of a clean buffer. -/
  onDisk : k.Ascending → k.buffer.dirty = false → k.buffer.OnDisk k.disk
  /-- In any case the file has held the version of a clean buffer at some time. -/
  held : k.buffer.dirty = false → k.buffer.version ∈ k.versions
  /-- Saves of which none starts before the other one is over do not overtake each other. -/
  oneByOne : Along OneByOne k₀ es → Along InOrder k₀ es

/-- **Overlapping saves** keep a clean buffer on disk as long as no save overtakes another; nothing
else keeps the file from going back to an older text. -/
theorem overlappingSaves_of_run? {options : BufferOptions} {file : List Char} {b : Buffer}
    {d : Disk} (hload : Buffer.load options file d = .ok b)
    (hrun : (opened b d).run? es = some k) : OverlappingSaves (opened b d) es k := by
  have hstart : (opened b d).Sound := sound_opened hload
  have hsound : k.Sound := hstart.run hrun
  have hahead : (opened b d).Ahead := fun s hs => nomatch hs
  have hpairwise : (opened b d).Ascending := List.pairwise_singleton _ _
  have hascending : Along InOrder (opened b d) es → k.Ascending := fun horder =>
    ascending_run hstart hahead hpairwise hrun horder
  refine ⟨hascending, fun hdone => ?_, fun hascends hclean => ?_, hsound.clean, fun h => ?_⟩
  · exact ⟨inOrder_of_ascending hrun hdone, hascending⟩
  · exact hsound.onDisk (getLast?_versions hsound hascends (hsound.clean hclean))
  · exact inOrder_of_oneByOne (Nat.zero_le 1) h

/-- Two saves that overlap and write in the order in which they started. -/
theorem overlappingSaves_of_run?_two_saves :
    let raw := "步骤:\r\n返回".toList
    let d : Disk := [(["a.tks".toList], .file (.text raw))]
    let b := Buffer.create .standard "a.tks".toList raw
    let es : List SaveEvent :=
      [.update true "步骤:\n等待 [1]".toList, .start false,
        .update true "步骤:\n等待 [2]".toList, .start false,
        .write 0, .write 1, .complete 0, .complete 0]
    Buffer.load .standard "a.tks".toList d = .ok b ∧
      ∃ k, (opened b d).run? es = some k ∧ k.saves = [] ∧ k.versions = [0, 1, 2] ∧
        OverlappingSaves (opened b d) es k := by
  intro raw d b es
  have hload : Buffer.load .standard "a.tks".toList d = .ok b := rfl
  exact ⟨hload, _, rfl, rfl, rfl, overlappingSaves_of_run? hload rfl⟩

/-- A clean buffer that is not on disk: the save of an older text, which was overtaken, writes
last. -/
theorem not_onDisk_overtaken :
    let raw := "步骤:\r\n返回".toList
    let d : Disk := [(["a.tks".toList], .file (.text raw))]
    let b := Buffer.create .standard "a.tks".toList raw
    let es : List SaveEvent :=
      [.update true "步骤:\n等待 [1]".toList, .start false,
        .update true "步骤:\n等待 [2]".toList, .start false,
        .write 1, .complete 1, .write 0, .complete 0]
    Buffer.load .standard "a.tks".toList d = .ok b ∧
      ∃ k, (opened b d).run? es = some k ∧ k.saves = [] ∧ k.buffer.dirty = false ∧
        k.versions = [0, 2, 1] ∧ k.buffer.content = "步骤:\n等待 [2]".toList ∧
        k.disk.read k.buffer.path = .ok "步骤:\r\n等待 [1]".toList ∧
        ¬ k.buffer.OnDisk k.disk := by
  intro raw d b es
  refine ⟨rfl, _, rfl, rfl, rfl, rfl, rfl, rfl, ?_⟩
  rintro ⟨held, hread, hheld⟩
  obtain rfl := Except.ok.inj hread
  exact absurd hheld (by decide)

/-! ## Saves in one go -/

variable {b : Buffer} {d d' : Disk}

theorem step?_start {force : Bool} (hsave : (b.dirty || force) = true) :
    (opened b d).step? (.start force) =
      some ⟨b.stopTimer, d, [⟨b.snapshot, false⟩], [b.version]⟩ := by
  have hcapture : b.stopTimer.capture? force = some b.snapshot := if_pos hsave
  show (match b.stopTimer.capture? force with
    | none => some { opened b d with buffer := b.stopTimer }
    | some s => some { opened b d with buffer := b.stopTimer, saves := [⟨s, false⟩] }) = _
  rw [hcapture]
  rfl

theorem run?_finish {s : Buffer.Snapshot} (versions : List Nat)
    (hwrite : d.write b.path s.text = .ok d') :
    (Desk.mk b d [⟨s, false⟩] versions).run? [.write 0, .complete 0] =
      some ⟨(b.finish d s).buffer, (b.finish d s).disk, [], versions ++ [s.version]⟩ := by
  have hfinish : b.finish d s = ⟨b.complete s (.ok d'), d', .ok ()⟩ := by
    rw [Buffer.finish, hwrite]
  rw [hfinish]
  simp [run?, step?, hwrite]

/-- A save in one go is a save with nothing between its steps. -/
theorem run?_write {force : Bool} (hsave : (b.dirty || force) = true)
    (hwrite : d.write b.path b.snapshot.text = .ok d') :
    (opened b d).run? [.start force, .write 0, .complete 0] =
      some ⟨(b.stopTimer.write d force).buffer, (b.stopTimer.write d force).disk, [],
        [b.version, b.version]⟩ := by
  have hgoes : b.stopTimer.write d force = b.stopTimer.finish d b.snapshot := by
    rw [Buffer.write_eq]
    exact if_pos hsave
  rw [run?, step?_start hsave, hgoes]
  exact run?_finish [b.version] hwrite

/-- A save with a text that is brought in between is a save with an update behind its start. -/
theorem run?_saveRacing {text : List Char} (hdirty : b.dirty = true)
    (hwrite : d.write b.path b.snapshot.text = .ok d') :
    (opened b d).run? [.start false, .update true text, .write 0, .complete 0] =
      some ⟨(b.saveRacing d text).buffer, (b.saveRacing d text).disk, [],
        [b.version, b.version]⟩ := by
  have hsave : (b.dirty || false) = true := by rw [hdirty, Bool.true_or]
  have hgoes : b.saveRacing d text = (b.stopTimer.update true text).finish d b.snapshot := by
    have hcapture : b.stopTimer.capture? false = some b.snapshot := if_pos hsave
    rw [Buffer.saveRacing, hcapture]
  rw [run?, step?_start hsave, hgoes]
  exact run?_finish (b := b.stopTimer.update true text) [b.version] hwrite

end Desk

end StepScript
