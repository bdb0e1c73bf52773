import StepScript.Proofs.BufferActions

/-!
# Clean buffers

A buffer that is not dirty promises that its text is on disk. Every action keeps this promise, as
long as nobody else writes to the file and a write that fails leaves the file alone: an action that
ends clean has just read the text, or has just written the text that it still has. A disk may be out
of reach for the time of an action, and this may happen at any time.

Main statements:

* `Buffer.Tidy.perform`, `Buffer.Tidy.perform_of_outOfReach` — what every action keeps;
* `Buffer.cleanOnDisk_of_reaches` — a clean buffer is on disk.
-/

set_option autoImplicit false

namespace StepScript

/-- A disk on which nothing can be read or written at a path. -/
structure Disk.OutOfReach (d : Disk) (p : FilePath) : Prop where
  unreadable : ∃ fault, d.read p = .error fault
  unwritable : ∀ s, ∃ fault, d.write p s = .error fault

namespace Buffer

/-! ## Actions on the disk of a file -/

/-- A buffer and a disk to which some actions lead from others, while nobody else touches the file
of the buffer. -/
inductive Reaches (b₀ : Buffer) (d₀ : Disk) : Buffer → Disk → Prop
  | start : Reaches b₀ d₀ b₀ d₀
  /-- An action is done. -/
  | act {b : Buffer} {d : Disk} (a : BufferAction) (h : Reaches b₀ d₀ b d) :
      Reaches b₀ d₀ (b.perform d a).buffer (b.perform d a).disk
  /-- An action is done while the file can be neither read nor written; afterwards the disk is as it
  was. -/
  | actOutOfReach {b : Buffer} {d lost : Disk} (a : BufferAction) (h : Reaches b₀ d₀ b d)
      (hlost : lost.OutOfReach b.path) : Reaches b₀ d₀ (b.perform lost a).buffer d
  /-- Others change the disk, but not the file. -/
  | elsewhere {b : Buffer} {d d' : Disk} (h : Reaches b₀ d₀ b d)
      (hsame : d'.read b.path = d.read b.path) : Reaches b₀ d₀ b d'

/-! ## What every action keeps -/

/-- The file of a buffer holds the text of the buffer. -/
def OnDisk (b : Buffer) (d : Disk) : Prop :=
  ∃ raw, d.read b.path = .ok raw ∧ LineEnding.normalize raw = b.content

/-- A buffer whose text is normal, and on disk if the buffer is clean. -/
structure Tidy (b : Buffer) (d : Disk) : Prop where
  normal : '\r' ∉ b.content
  onDisk : b.dirty = false → b.OnDisk d

variable {b b' : Buffer} {d d' : Disk}

theorem SameText.path_eq (h : SameText b b') : b'.path = b.path :=
  congrArg FilePath.ofText h.file_eq

theorem Tidy.of_sameText (h : Tidy b d) (hsame : SameText b b') : Tidy b' d := by
  refine ⟨?_, fun hclean => ?_⟩
  · rw [hsame.content_eq]
    exact h.normal
  · obtain ⟨raw, hread, hraw⟩ := h.onDisk (hsame.dirty_eq.symm.trans hclean)
    refine ⟨raw, ?_, ?_⟩
    · rw [hsame.path_eq]
      exact hread
    · rw [hsame.content_eq]
      exact hraw

/-- A buffer with another text is dirty, so that nothing is promised of its file. -/
theorem tidy_update (b : Buffer) (d : Disk) (timed : Bool) (text : List Char) :
    Tidy (b.update timed text) d :=
  ⟨LineEnding.not_mem_normalize text, fun hclean => Bool.noConfusion hclean⟩

/-- What was just written is on disk, whatever is marked or told then. -/
theorem onDisk_of_write (h : Tidy b d) (hwrite : d.write b.path b.snapshot.text = .ok d')
    (dirty : Bool) (delivered : List Delivery) : OnDisk { b with dirty, delivered } d' :=
  ⟨b.snapshot.text, Disk.read_write hwrite, LineEnding.normalize_apply b.ending h.normal⟩

/-- The end of a save keeps a buffer tidy if the text is still the one that was captured. -/
theorem Tidy.finish_snapshot (h : Tidy b d) :
    Tidy (b.finish d b.snapshot).buffer (b.finish d b.snapshot).disk := by
  rcases b.finish_cases d b.snapshot with
    ⟨d', delivered, hwrite, hfinish⟩ | ⟨_, delivered, -, hfinish⟩
  · rw [hfinish]
    exact ⟨h.normal, fun _ => onDisk_of_write h hwrite _ delivered⟩
  · rw [hfinish]
    exact h.of_sameText ⟨rfl, rfl, rfl, rfl, rfl, rfl⟩

theorem Tidy.write (h : Tidy b d) (force : Bool) :
    Tidy (b.write d force).buffer (b.write d force).disk := by
  rw [write_eq]
  split
  · exact h.finish_snapshot
  · exact h

theorem Raced.tidy {text : List Char} (h : Raced b b' text) (d : Disk) : Tidy b' d := by
  refine ⟨?_, fun hclean => ?_⟩
  · rw [h.content_eq]
    exact LineEnding.not_mem_normalize text
  · rw [h.dirty_eq] at hclean
    exact Bool.noConfusion hclean

/-- Every action keeps a buffer tidy. -/
theorem Tidy.perform (h : Tidy b d) (a : BufferAction) :
    Tidy (b.perform d a).buffer (b.perform d a).disk := by
  have hstopped := h.of_sameText (sameText_stopTimer b)
  cases a with
  | subscribe name => exact h.of_sameText ⟨rfl, rfl, rfl, rfl, rfl, rfl⟩
  | dispose => exact h.of_sameText ⟨rfl, rfl, rfl, rfl, rfl, rfl⟩
  | update timed text => exact tidy_update b d timed text
  | save => exact hstopped.write false
  | forceSave => exact hstopped.write true
  | saveRacing text => exact (raced_saveRacing b d text).tidy _
  | reload =>
      show Tidy (b.reload d).1 d
      rcases b.reload_cases d with ⟨raw, delivered, hread, h⟩ | ⟨_, -, h⟩
      · rw [h]
        exact ⟨LineEnding.not_mem_normalize raw, fun _ => ⟨raw, hread, rfl⟩⟩
      · rw [h]
        exact hstopped
  | advance ms =>
      show Tidy (b.advance d ms).1 (b.advance d ms).2
      rcases b.advance_cases d ms with ⟨-, h'⟩ | ⟨left, -, -, h'⟩ | ⟨left, -, -, h'⟩
      · rw [h']
        exact h
      · rw [h']
        exact h.of_sameText ⟨rfl, rfl, rfl, rfl, rfl, rfl⟩
      · rw [h']
        exact hstopped.write false

/-- Every action that cannot reach the file keeps a buffer tidy with respect to the disk that it did
not reach. -/
theorem Tidy.perform_of_outOfReach (h : Tidy b d) {lost : Disk} (hlost : lost.OutOfReach b.path)
    (a : BufferAction) : Tidy (b.perform lost a).buffer d := by
  have hsaves : a.saves = true → Tidy (b.perform lost a).buffer d := fun ha =>
    h.of_sameText (sameText_perform_of_fault ha hlost.unwritable)
  cases a with
  | subscribe name => exact h.of_sameText ⟨rfl, rfl, rfl, rfl, rfl, rfl⟩
  | dispose => exact h.of_sameText ⟨rfl, rfl, rfl, rfl, rfl, rfl⟩
  | update timed text => exact tidy_update b d timed text
  | save => exact hsaves rfl
  | forceSave => exact hsaves rfl
  | saveRacing text => exact (raced_saveRacing b lost text).tidy d
  | advance ms => exact hsaves rfl
  | reload =>
      show Tidy (b.reload lost).1 d
      obtain ⟨fault, hfault⟩ := hlost.unreadable
      rcases b.reload_cases lost with ⟨raw, _, hread, -⟩ | ⟨_, -, h'⟩
      · simp [hfault] at hread
      · rw [h']
        exact h.of_sameText (sameText_stopTimer b)

theorem Reaches.tidy {b₀ : Buffer} {d₀ : Disk} (h : Reaches b₀ d₀ b d) (h₀ : Tidy b₀ d₀) :
    Tidy b d := by
  induction h with
  | start => exact h₀
  | act a _ ih => exact ih.perform a
  | actOutOfReach a _ hlost ih => exact ih.perform_of_outOfReach hlost a
  | elsewhere _ hsame ih =>
      refine ⟨ih.normal, fun hclean => ?_⟩
      obtain ⟨raw, hread, hraw⟩ := ih.onDisk hclean
      exact ⟨raw, hsame.trans hread, hraw⟩

/-- A buffer that was just loaded is tidy. -/
theorem tidy_load {options : BufferOptions} {file : List Char}
    (h : load options file d = .ok b) : Tidy b d := by
  obtain ⟨raw, hread, rfl⟩ := exists_raw_of_load h
  exact ⟨LineEnding.not_mem_normalize raw, fun _ => ⟨raw, hread, rfl⟩⟩

/-! ## Clean buffers are on disk -/

/-- What is promised of a buffer and the disk with its file. -/
structure CleanOnDisk (b : Buffer) (d : Disk) : Prop where
  /-- The file of a clean buffer holds a text that reads as the text of the buffer. -/
  clean : b.dirty = false → ∃ raw, d.read b.path = .ok raw ∧ LineEnding.normalize raw = b.content
  /-- A write that fails leaves the text, its version and the dirty mark as they are. -/
  failed : ∀ (lost : Disk) (a : BufferAction), a.saves = true →
    (∀ s, ∃ fault, lost.write b.path s = .error fault) →
    (b.perform lost a).buffer.content = b.content ∧
      (b.perform lost a).buffer.version = b.version ∧ (b.perform lost a).buffer.dirty = b.dirty
  /-- A save that another text comes in between leaves the buffer dirty, with that text, whether or
  not the captured text was written. -/
  raced : ∀ (any : Disk) (text : List Char),
    (b.saveRacing any text).buffer.content = LineEnding.normalize text ∧
      (b.saveRacing any text).buffer.version = b.version + 1 ∧
      (b.saveRacing any text).buffer.dirty = true

/-- **A clean buffer is on disk.** Whatever is done with a buffer that was loaded, and whichever of
its reads and writes fail. -/
theorem cleanOnDisk_of_reaches {options : BufferOptions} {file : List Char} {b₀ : Buffer}
    {d₀ : Disk} (hload : load options file d₀ = .ok b₀) (h : Reaches b₀ d₀ b d) :
    CleanOnDisk b d where
  clean := (h.tidy (tidy_load hload)).onDisk
  failed := fun lost a ha hfault => by
    have hsame := sameText_perform_of_fault (b := b) ha hfault
    exact ⟨hsame.content_eq, hsame.version_eq, hsame.dirty_eq⟩
  raced := fun any text => by
    have hraced := raced_saveRacing b any text
    exact ⟨hraced.content_eq, hraced.version_eq, hraced.dirty_eq⟩

/-- A buffer that is clean again after a raced save, a save out of reach, and a save by the
timer. -/
theorem cleanOnDisk_of_reaches_timer :
    let raw := "步骤:\r\n返回".toList
    let d : Disk := [(["a.tks".toList], .file (.text raw))]
    let b := create .standard "a.tks".toList raw
    load .standard "a.tks".toList d = .ok b ∧
      ∃ b' d', Reaches b d b' d' ∧ b'.dirty = false ∧ CleanOnDisk b' d' := by
  intro raw d b
  have hload : load .standard "a.tks".toList d = .ok b := rfl
  have hlost : ∀ b' : Buffer, b'.file = b.file →
      Disk.OutOfReach [(["a.tks".toList], .folder)] b'.path := by
    intro b' hfile
    rw [path, hfile]
    exact ⟨⟨.isFolder, rfl⟩, fun s => ⟨.isFolder, rfl⟩⟩
  have hraced : Reaches b d _ _ := .act (.saveRacing "步骤:".toList) .start
  have hfailed : Reaches b d _ _ := .actOutOfReach .save hraced (hlost _ rfl)
  have hupdated : Reaches b d _ _ := .act (.update true "步骤:\n等待 [1]".toList) hfailed
  have hsaved : Reaches b d _ _ := .act (.advance 1000) hupdated
  exact ⟨hload, _, _, hsaved, rfl, cleanOnDisk_of_reaches hload hsaved⟩

end Buffer

end StepScript
