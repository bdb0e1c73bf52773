import StepScript.Buffer

/-!
# What is done with a buffer

An **action** is anything that is done with a buffer on a disk. The write of a save is the one place
where an action changes the disk, and it either succeeds or leaves everything but the deliveries as
it was; so what an action does is read off two case distinctions, and nothing later opens a save
again.

Main statements:

* `Buffer.finish_cases`, `Buffer.write_eq` — what a save can do;
* `Buffer.advance_cases`, `Buffer.reload_cases` — what the passage of time and a reload can do;
* `Buffer.timer_perform`, `Buffer.exists_buffer_perform` — what an action does to the timer, and
  what it touches at most.
-/

set_option autoImplicit false

namespace StepScript

/-! ## Actions -/

/-- One thing that is done with a buffer. -/
inductive BufferAction where
  | subscribe (name : Subscriber)
  | dispose
  | update (timed : Bool) (text : List Char)
  | save
  | forceSave
  /-- A save during which the text is replaced. -/
  | saveRacing (text : List Char)
  | reload
  /-- Time passes, and the timer may end. -/
  | advance (ms : Nat)
deriving DecidableEq

namespace BufferAction

/-- Whether an action writes the text that is there, should it write anything. -/
def saves : BufferAction → Bool
  | save | forceSave | advance _ => true
  | _ => false

def keepsText : BufferAction → Bool
  | update _ _ | saveRacing _ | reload => false
  | _ => true

def duration : BufferAction → Nat
  | advance ms => ms
  | _ => 0

/-- The timer after an action, where `timer` is the timer in front of it. -/
def timerAfter (options : BufferOptions) (timer : Option Nat) : BufferAction → Option Nat
  | subscribe _ => timer
  | update timed _ => if options.autosave && timed then some options.delay else none
  | saveRacing _ => if options.autosave then some options.delay else none
  | advance ms => timer.bind fun left => if left ≤ ms then none else some (left - ms)
  | dispose | save | forceSave | reload => none

end BufferAction

namespace Buffer

/-- What is left of a buffer and a disk after an action. -/
def perform (b : Buffer) (d : Disk) : BufferAction → FileResult
  | .subscribe name => ⟨b.subscribe name, d, .ok ()⟩
  | .dispose => ⟨b.dispose, d, .ok ()⟩
  | .update timed text => ⟨b.update timed text, d, .ok ()⟩
  | .save => b.save d
  | .forceSave => b.forceSave d
  | .saveRacing text => b.saveRacing d text
  | .reload => ⟨(b.reload d).1, d, (b.reload d).2⟩
  | .advance ms => ⟨(b.advance d ms).1, (b.advance d ms).2, .ok ()⟩

/-! ## Buffers with the same text -/

/-- A buffer that differs from another one at most in its timer and in what its subscribers are
told. -/
structure SameText (b b' : Buffer) : Prop where
  content_eq : b'.content = b.content
  version_eq : b'.version = b.version
  dirty_eq : b'.dirty = b.dirty
  ending_eq : b'.ending = b.ending
  file_eq : b'.file = b.file
  options_eq : b'.options = b.options

variable {b : Buffer} {d : Disk}

theorem SameText.refl (b : Buffer) : SameText b b :=
  ⟨rfl, rfl, rfl, rfl, rfl, rfl⟩

theorem SameText.trans {b' b'' : Buffer} (h : SameText b b') (h' : SameText b' b'') :
    SameText b b'' where
  content_eq := h'.content_eq.trans h.content_eq
  version_eq := h'.version_eq.trans h.version_eq
  dirty_eq := h'.dirty_eq.trans h.dirty_eq
  ending_eq := h'.ending_eq.trans h.ending_eq
  file_eq := h'.file_eq.trans h.file_eq
  options_eq := h'.options_eq.trans h.options_eq

theorem sameText_stopTimer (b : Buffer) : SameText b b.stopTimer :=
  ⟨rfl, rfl, rfl, rfl, rfl, rfl⟩

/-- A buffer that is loaded has the text of its file. -/
theorem exists_raw_of_load {options : BufferOptions} {file : List Char}
    (h : load options file d = .ok b) :
    ∃ raw, d.read (FilePath.ofText file) = .ok raw ∧ b = create options file raw := by
  rw [load, textOf] at h
  cases hread : d.read (FilePath.ofText file) with
  | error fault => simp [hread, Except.map] at h
  | ok raw =>
      rw [hread] at h
      exact ⟨raw, rfl, (Except.ok.inj h).symm⟩

/-! ## Saves -/

/-- What a save of a buffer captures. -/
def snapshot (b : Buffer) : Snapshot :=
  ⟨b.ending.apply b.content, b.version⟩

/-- A save whose write succeeds: the buffer is clean if its version is still the one that was
captured, and every subscriber is told. -/
theorem finish_of_write_eq_ok {d' : Disk} {s : Snapshot} (h : d.write b.path s.text = .ok d') :
    b.finish d s =
      ⟨{ b with
          dirty := b.dirty && b.version != s.version
          delivered := b.delivered ++ b.subscribers.map fun name => ⟨name, .saved b.file⟩ },
        d', .ok ()⟩ := by
  rw [finish, h]
  rfl

/-- A save whose write fails: every subscriber is told, and that is all. -/
theorem finish_of_write_eq_error {fault : FileFault} {s : Snapshot}
    (h : d.write b.path s.text = .error fault) :
    b.finish d s =
      ⟨{ b with delivered := b.delivered ++ b.subscribers.map fun name => ⟨name, .saveFailed fault⟩ },
        d, .error (.write b.file fault)⟩ := by
  rw [finish, h]
  rfl

/-- **What the end of a save can do**: the text is written, and the buffer is clean if its version
is still the one that was captured; or the text is not written, and only the subscribers are
told. -/
theorem finish_cases (b : Buffer) (d : Disk) (s : Snapshot) :
    (∃ d' delivered, d.write b.path s.text = .ok d' ∧ b.finish d s =
        ⟨{ b with dirty := b.dirty && b.version != s.version, delivered }, d', .ok ()⟩) ∨
      ∃ fault delivered, d.write b.path s.text = .error fault ∧ b.finish d s =
        ⟨{ b with delivered }, d, .error (.write b.file fault)⟩ := by
  cases hw : d.write b.path s.text with
  | ok d' => exact Or.inl ⟨d', _, rfl, finish_of_write_eq_ok hw⟩
  | error fault => exact Or.inr ⟨fault, _, rfl, finish_of_write_eq_error hw⟩

/-- A save captures the text as it is, unless there is nothing to save. -/
theorem write_eq (b : Buffer) (d : Disk) (force : Bool) :
    b.write d force =
      if b.dirty || force then b.finish d b.snapshot else ⟨b, d, .ok ()⟩ := by
  rw [write, capture?]
  split
  · next h =>
    split at h
    · simp at h
    · next hclean => rw [if_neg hclean]
  · next s h =>
    split at h
    · next hsave =>
      obtain rfl := Option.some.inj h
      rw [if_pos hsave]
      rfl
    · simp at h

/-- A save with a text that is brought in between: the text is there, and the buffer is dirty,
whatever became of the write. -/
theorem saveRacing_cases (b : Buffer) (d : Disk) (text : List Char) :
    (b.saveRacing d text = ⟨b.stopTimer.update true text, d, .ok ()⟩ ∨
      b.dirty = true ∧
        b.saveRacing d text = (b.stopTimer.update true text).finish d b.snapshot) := by
  rw [saveRacing, capture?]
  cases hdirty : b.dirty with
  | true =>
      refine Or.inr ⟨rfl, ?_⟩
      have hcapture : (b.stopTimer.dirty || false) = true := by
        rw [Bool.or_false]
        exact hdirty
      rw [if_pos hcapture]
      rfl
  | false =>
      have hcapture : ¬ (b.stopTimer.dirty || false) = true := by
        rw [Bool.or_false]
        exact fun h => Bool.noConfusion (hdirty.symm.trans h)
      rw [if_neg hcapture]
      exact Or.inl rfl

/-- **What the passage of time can do**: nothing, or the timer goes on, or it ends and the text is
saved. -/
theorem advance_cases (b : Buffer) (d : Disk) (ms : Nat) :
    (b.timer = none ∧ b.advance d ms = (b, d)) ∨
      (∃ left, b.timer = some left ∧ ms < left ∧
        b.advance d ms = ({ b with timer := some (left - ms) }, d)) ∨
      ∃ left, b.timer = some left ∧ left ≤ ms ∧ b.advance d ms =
        ((b.stopTimer.write d false).buffer, (b.stopTimer.write d false).disk) := by
  rw [advance]
  cases htimer : b.timer with
  | none => exact Or.inl ⟨rfl, rfl⟩
  | some left =>
      dsimp only
      by_cases hleft : left ≤ ms
      · rw [if_pos hleft]
        exact Or.inr (Or.inr ⟨left, rfl, hleft, rfl⟩)
      · rw [if_neg hleft]
        exact Or.inr (Or.inl ⟨left, rfl, by omega, rfl⟩)

/-! ## Writes that fail -/

/-- A save whose write fails leaves the text, and the buffer as dirty as it was. -/
theorem sameText_write_of_fault {force : Bool}
    (h : ∀ s, ∃ fault, d.write b.path s = .error fault) :
    SameText b (b.write d force).buffer := by
  rw [write_eq]
  split
  · obtain ⟨fault, hfault⟩ := h b.snapshot.text
    rcases b.finish_cases d b.snapshot with ⟨d', _, hok, -⟩ | ⟨_, _, -, hfinish⟩
    · simp [hfault] at hok
    · rw [hfinish]
      exact ⟨rfl, rfl, rfl, rfl, rfl, rfl⟩
  · exact SameText.refl b

/-- So does every action that writes the text that is there. -/
theorem sameText_perform_of_fault {a : BufferAction} (ha : a.saves = true)
    (h : ∀ s, ∃ fault, d.write b.path s = .error fault) :
    SameText b (b.perform d a).buffer := by
  have hstopped := sameText_stopTimer b
  have hwrite : ∀ force, SameText b (b.stopTimer.write d force).buffer := fun force =>
    hstopped.trans (sameText_write_of_fault h)
  cases a with
  | save => exact hwrite false
  | forceSave => exact hwrite true
  | advance ms =>
      show SameText b (b.advance d ms).1
      rcases b.advance_cases d ms with ⟨-, h⟩ | ⟨left, -, -, h⟩ | ⟨left, -, -, h⟩
      · rw [h]
        exact SameText.refl b
      · rw [h]
        exact ⟨rfl, rfl, rfl, rfl, rfl, rfl⟩
      · rw [h]
        exact hwrite false
  | subscribe name => exact Bool.noConfusion ha
  | dispose => exact Bool.noConfusion ha
  | update timed text => exact Bool.noConfusion ha
  | saveRacing text => exact Bool.noConfusion ha
  | reload => exact Bool.noConfusion ha

/-! ## What no save touches -/

/-- The end of a save touches nothing but the dirty mark and what the subscribers are told. -/
theorem exists_buffer_finish (b : Buffer) (d : Disk) (s : Snapshot) :
    ∃ dirty delivered, (b.finish d s).buffer = { b with dirty, delivered } := by
  rcases b.finish_cases d s with ⟨_, delivered, -, h⟩ | ⟨_, delivered, -, h⟩
  · rw [h]
    exact ⟨_, delivered, rfl⟩
  · rw [h]
    exact ⟨b.dirty, delivered, rfl⟩

theorem exists_buffer_write (b : Buffer) (d : Disk) (force : Bool) :
    ∃ dirty delivered, (b.write d force).buffer = { b with dirty, delivered } := by
  rw [write_eq]
  split
  · exact exists_buffer_finish b d _
  · exact ⟨b.dirty, b.delivered, rfl⟩

/-- The end of a save leaves a buffer dirty if its version is no longer the one that was
captured. -/
theorem dirty_finish_of_ne {s : Snapshot} (hdirty : b.dirty = true)
    (hversion : b.version ≠ s.version) : (b.finish d s).buffer.dirty = true := by
  rcases b.finish_cases d s with ⟨_, _, -, hfinish⟩ | ⟨_, _, -, hfinish⟩
  · rw [hfinish]
    show (b.dirty && b.version != s.version) = true
    rw [hdirty, Bool.true_and]
    exact bne_iff_ne.2 hversion
  · rw [hfinish]
    exact hdirty

/-- A buffer after another text was brought, and perhaps an older one written: it has the new text,
is dirty, and the timer runs for it. -/
structure Raced (b b' : Buffer) (text : List Char) : Prop where
  content_eq : b'.content = LineEnding.normalize text
  version_eq : b'.version = b.version + 1
  dirty_eq : b'.dirty = true
  timer_eq : b'.timer = if b.options.autosave then some b.options.delay else none
  ending_eq : b'.ending = b.ending
  options_eq : b'.options = b.options

theorem raced_saveRacing (b : Buffer) (d : Disk) (text : List Char) :
    Raced b (b.saveRacing d text).buffer text := by
  have hupdated : Raced b (b.stopTimer.update true text) text := by
    refine ⟨rfl, rfl, rfl, ?_, rfl, rfl⟩
    show (if b.options.autosave && true then some b.options.delay else none) = _
    rw [Bool.and_true]
  rcases b.saveRacing_cases d text with h | ⟨-, h⟩
  · rw [h]
    exact hupdated
  · rw [h]
    have hne : (b.stopTimer.update true text).version ≠ b.snapshot.version :=
      Nat.succ_ne_self b.version
    have hdirty := dirty_finish_of_ne (d := d) hupdated.dirty_eq hne
    obtain ⟨dirty, delivered, hfinish⟩ :=
      (b.stopTimer.update true text).exists_buffer_finish d b.snapshot
    rw [hfinish] at hdirty ⊢
    exact ⟨rfl, rfl, hdirty, hupdated.timer_eq, rfl, rfl⟩

/-- What a reload makes of a buffer: the text of the file, or the buffer without its timer. -/
theorem reload_cases (b : Buffer) (d : Disk) :
    (∃ raw delivered, d.read b.path = .ok raw ∧ b.reload d =
        ({ b.stopTimer with
            content := LineEnding.normalize raw, ending := LineEnding.detect raw
            dirty := false, version := b.version + 1, delivered }, .ok ())) ∨
      ∃ fault, d.read b.path = .error fault ∧
        b.reload d = (b.stopTimer, .error (.read b.file fault)) := by
  have hpath : FilePath.ofText b.file = b.path := rfl
  rw [reload, textOf, hpath]
  cases hread : d.read b.path with
  | ok raw => exact Or.inl ⟨raw, _, rfl, rfl⟩
  | error fault => exact Or.inr ⟨fault, rfl, rfl⟩

/-! ## What an action keeps -/

/-- **What an action does to the timer.** -/
theorem timer_perform (b : Buffer) (d : Disk) (a : BufferAction) :
    (b.perform d a).buffer.timer = a.timerAfter b.options b.timer := by
  have hstopped : ∀ force, (b.stopTimer.write d force).buffer.timer = none := by
    intro force
    obtain ⟨_, _, h⟩ := b.stopTimer.exists_buffer_write d force
    rw [h]
    rfl
  cases a with
  | subscribe name => rfl
  | dispose => rfl
  | update timed text => rfl
  | save => exact hstopped false
  | forceSave => exact hstopped true
  | saveRacing text => exact (raced_saveRacing b d text).timer_eq
  | reload =>
      show (b.reload d).1.timer = none
      rcases b.reload_cases d with ⟨_, _, -, h⟩ | ⟨_, -, h⟩ <;> rw [h] <;> rfl
  | advance ms =>
      show (b.advance d ms).1.timer =
        b.timer.bind fun left => if left ≤ ms then none else some (left - ms)
      rcases b.advance_cases d ms with ⟨ht, h⟩ | ⟨left, ht, hlt, h⟩ | ⟨left, ht, hle, h⟩
      · rw [h, ht]
        rfl
      · rw [h, ht]
        exact (if_neg (Nat.not_le.2 hlt)).symm
      · rw [h, ht]
        exact (hstopped false).trans (if_pos hle).symm

/-- An action that writes the text that is there touches nothing but the timer, the dirty mark and
what the subscribers are told. -/
theorem exists_buffer_perform {a : BufferAction} (ha : a.saves = true) :
    ∃ timer dirty delivered, (b.perform d a).buffer = { b with timer, dirty, delivered } := by
  have hwrite : ∀ force, ∃ timer dirty delivered,
      (b.stopTimer.write d force).buffer = { b with timer, dirty, delivered } := by
    intro force
    obtain ⟨dirty, delivered, h⟩ := b.stopTimer.exists_buffer_write d force
    exact ⟨none, dirty, delivered, h⟩
  cases a with
  | save => exact hwrite false
  | forceSave => exact hwrite true
  | advance ms =>
      show ∃ timer dirty delivered, (b.advance d ms).1 = { b with timer, dirty, delivered }
      rcases b.advance_cases d ms with ⟨-, h⟩ | ⟨left, -, -, h⟩ | ⟨_, -, -, h⟩
      · exact ⟨b.timer, b.dirty, b.delivered, by rw [h]⟩
      · exact ⟨some (left - ms), b.dirty, b.delivered, by rw [h]⟩
      · rw [h]
        exact hwrite false
  | _ => cases ha

theorem options_perform (b : Buffer) (d : Disk) (a : BufferAction) :
    (b.perform d a).buffer.options = b.options := by
  have hsaves : a.saves = true → (b.perform d a).buffer.options = b.options := by
    intro ha
    obtain ⟨_, _, _, h⟩ := exists_buffer_perform (b := b) (d := d) ha
    rw [h]
  cases a with
  | subscribe name => rfl
  | dispose => rfl
  | update timed text => rfl
  | saveRacing text => exact (raced_saveRacing b d text).options_eq
  | reload =>
      show (b.reload d).1.options = b.options
      rcases b.reload_cases d with ⟨_, _, -, h⟩ | ⟨_, -, h⟩ <;> rw [h] <;> rfl
  | _ => exact hsaves rfl

theorem content_perform {a : BufferAction} (ha : a.keepsText = true) :
    (b.perform d a).buffer.content = b.content := by
  have hsaves : a.saves = true → (b.perform d a).buffer.content = b.content := by
    intro ha
    obtain ⟨_, _, _, h⟩ := exists_buffer_perform (b := b) (d := d) ha
    rw [h]
  cases a with
  | subscribe name => rfl
  | dispose => rfl
  | update timed text => cases ha
  | saveRacing text => cases ha
  | reload => cases ha
  | _ => exact hsaves rfl

end Buffer

end StepScript
