import Mathlib.Algebra.Ring.Nat
import Mathlib.Data.List.Induction
import StepScript.Proofs.BufferActions

/-!
# Autosaves

A history of a buffer is a list of actions, each with the disk that it meets; the disks need not fit
together, so that any read and any write may fail. An **autosave** is the write that the end of the
timer asks for. A text **waits** to be saved after the action that brought it, for as long as all
that is done is to subscribe and to let time pass, and the delay is not over. The timer runs exactly
for the text that waits, with what is left of the delay; so an autosave happens exactly when the
delay of a waiting text is over, and it writes that text.

Main statements:

* `Buffer.timer_history_iff` — the timer runs for the text that waits;
* `Buffer.mem_autosaves_iff` — when an autosave happens, and what it writes;
* `Buffer.debounced_autosaves` — what is promised of the autosaves of a history.
-/

set_option autoImplicit false

namespace StepScript

namespace BufferAction

/-- The text for which an action starts the timer. -/
def timedText? : BufferAction → Option (List Char)
  | update true text | saveRacing text => some text
  | _ => none

/-- Whether an action leaves the timer to itself. -/
def leavesTimer : BufferAction → Bool
  | subscribe _ | advance _ => true
  | _ => false

def advances : BufferAction → Bool
  | advance _ => true
  | _ => false

end BufferAction

/-! ## Histories -/

/-- An action, with the disk that it meets. -/
structure Occasion where
  action : BufferAction
  disk : Disk

/-- A write that the end of the timer asks for. -/
structure Autosave where
  /-- When it happens, in milliseconds. -/
  time : Nat
  text : List Char
deriving DecidableEq

def elapsed (os : List Occasion) : Nat :=
  (os.map fun o => o.action.duration).sum

namespace Buffer

/-- A buffer after an action on the disk that the action meets. -/
def after (b : Buffer) (o : Occasion) : Buffer :=
  (b.perform o.disk o.action).buffer

def history (b : Buffer) (os : List Occasion) : Buffer :=
  os.foldl after b

/-- The autosave that happens during an action which starts at `now`. -/
def autosave? (b : Buffer) (now : Nat) (a : BufferAction) : Option Autosave :=
  match a, b.timer with
  | .advance ms, some left =>
    if left ≤ ms ∧ b.dirty = true then some ⟨now + left, b.snapshot.text⟩ else none
  | _, _ => none

/-- The autosaves of a history which starts at `now`, in turn. -/
def autosaves (b : Buffer) (now : Nat) : List Occasion → List Autosave
  | [] => []
  | o :: os =>
    (b.autosave? now o.action).toList ++ (b.after o).autosaves (now + o.action.duration) os

/-- A text waits to be saved at the end of `between`, which follows the occasion that brought it. A
delay of no milliseconds is over as soon as time passes. -/
structure Waits (delay : Nat) (o : Occasion) (text : List Char) (between : List Occasion) :
    Prop where
  brings : o.action.timedText? = some text
  leaves : ∀ o' ∈ between, o'.action.leavesTimer = true
  early : elapsed between < delay ∨ ∀ o' ∈ between, o'.action.advances = false

/-- Some text waits at the end of a history, for the given milliseconds more. -/
def WaitsAtEnd (delay : Nat) (os : List Occasion) (left : Nat) : Prop :=
  ∃ before o text between, os = before ++ o :: between ∧ Waits delay o text between ∧
    left + elapsed between = delay

/-- In a history that starts at `now`, the delay of a text that waits is over at the time of `x`,
and `x` writes this text with the line ending of the buffer. -/
def DelayOver (b : Buffer) (now : Nat) (os : List Occasion) (x : Autosave) : Prop :=
  ∃ before o text between ms d after, os = before ++ o :: between ++ ⟨.advance ms, d⟩ :: after ∧
    Waits b.options.delay o text between ∧
    x.time = now + elapsed before + b.options.delay ∧
    x.time ≤ now + elapsed before + elapsed between + ms ∧
    x.text = (b.history before).ending.apply (LineEnding.normalize text)

variable {b : Buffer} {o : Occasion} {os : List Occasion} {text : List Char}

theorem elapsed_append (os os' : List Occasion) :
    elapsed (os ++ os') = elapsed os + elapsed os' := by
  simp [elapsed]

theorem elapsed_cons (o : Occasion) (os : List Occasion) :
    elapsed (o :: os) = o.action.duration + elapsed os := by
  simp [elapsed]

@[simp]
theorem elapsed_nil : elapsed [] = 0 :=
  rfl

theorem history_append (b : Buffer) (os os' : List Occasion) :
    b.history (os ++ os') = (b.history os).history os' :=
  List.foldl_append

theorem history_snoc (b : Buffer) (os : List Occasion) (o : Occasion) :
    b.history (os ++ [o]) = (b.history os).after o := by
  rw [history_append]
  rfl

theorem history_cons (b : Buffer) (o : Occasion) (os : List Occasion) :
    b.history (o :: os) = (b.after o).history os :=
  rfl

theorem options_history (b : Buffer) (os : List Occasion) : (b.history os).options = b.options := by
  induction os generalizing b with
  | nil => rfl
  | cons o os ih =>
      rw [history_cons, ih]
      exact b.options_perform o.disk o.action

/-! ## The timer runs for the text that waits -/

theorem duration_of_timedText? {a : BufferAction} (h : a.timedText? = some text) :
    a.duration = 0 := by
  cases a with
  | advance ms => cases h
  | _ => rfl

theorem duration_of_not_advances {a : BufferAction} (h : a.advances = false) : a.duration = 0 := by
  cases a with
  | advance ms => exact Bool.noConfusion h
  | _ => rfl

theorem elapsed_eq_zero (h : ∀ o ∈ os, o.action.advances = false) : elapsed os = 0 := by
  induction os with
  | nil => rfl
  | cons o os ih =>
      have ho : o.action.duration = 0 := duration_of_not_advances (h o List.mem_cons_self)
      have hos : elapsed os = 0 := ih fun o' ho' => h o' (List.mem_cons_of_mem o ho')
      rw [elapsed_cons, ho, hos]

section Waits

variable {delay : Nat} {between : List Occasion} {o' : Occasion}

theorem waits_nil (h : o.action.timedText? = some text) : Waits delay o text [] :=
  ⟨h, by simp, Or.inr (by simp)⟩

theorem Waits.elapsed_le (h : Waits delay o text between) : elapsed between ≤ delay := by
  rcases h.early with hlt | hnone
  · omega
  · have hzero := elapsed_eq_zero hnone
    omega

/-- A text goes on to wait as long as the timer is left to itself and the delay is not over. -/
theorem waits_snoc : Waits delay o text (between ++ [o']) ↔
    Waits delay o text between ∧ o'.action.leavesTimer = true ∧
      (elapsed between + o'.action.duration < delay ∨ o'.action.advances = false) := by
  have helapsed : elapsed (between ++ [o']) = elapsed between + o'.action.duration := by
    rw [elapsed_append, elapsed_cons, elapsed_nil, Nat.add_zero]
  constructor
  · intro h
    have hlast : o' ∈ between ++ [o'] := by simp
    have hfront : ∀ o ∈ between, o ∈ between ++ [o'] := fun o ho => List.mem_append_left _ ho
    refine ⟨⟨h.brings, fun o ho => h.leaves o (hfront o ho), ?_⟩, h.leaves o' hlast, ?_⟩
    · rcases h.early with hlt | hnone
      · exact Or.inl (by omega)
      · exact Or.inr fun o ho => hnone o (hfront o ho)
    · rcases h.early with hlt | hnone
      · exact Or.inl (by omega)
      · exact Or.inr (hnone o' hlast)
  · rintro ⟨h, hleaves, hearly⟩
    refine ⟨h.brings, ?_, ?_⟩
    · intro o ho
      rcases List.mem_append.1 ho with ho | ho
      · exact h.leaves o ho
      · obtain rfl := List.mem_singleton.1 ho
        exact hleaves
    · rcases hearly with hlt | hlast
      · exact Or.inl (by omega)
      · have hzero : o'.action.duration = 0 := duration_of_not_advances hlast
        rcases h.early with hlt | hnone
        · exact Or.inl (by omega)
        · refine Or.inr fun o ho => ?_
          rcases List.mem_append.1 ho with ho | ho
          · exact hnone o ho
          · obtain rfl := List.mem_singleton.1 ho
            exact hlast

end Waits

/-- A buffer with a text that waits, and the timer that runs for it. -/
structure Armed (b : Buffer) (left : Nat) (text : List Char) (ending : LineEnding) : Prop where
  timer_eq : b.timer = some left
  dirty_eq : b.dirty = true
  content_eq : b.content = LineEnding.normalize text
  ending_eq : b.ending = ending

/-- An action that brings a text starts the timer for it. -/
theorem armed_after (hauto : b.options.autosave = true) (h : o.action.timedText? = some text) :
    Armed (b.after o) b.options.delay text b.ending := by
  obtain ⟨a, d⟩ := o
  cases a with
  | update timed newText =>
      cases timed with
      | false => cases h
      | true =>
          obtain rfl := Option.some.inj h
          refine ⟨?_, rfl, rfl, rfl⟩
          show (if b.options.autosave && true then some b.options.delay else none) = _
          rw [hauto]
          rfl
  | saveRacing newText =>
      obtain rfl := Option.some.inj h
      have hraced := raced_saveRacing b d newText
      exact ⟨hraced.timer_eq.trans (if_pos hauto), hraced.dirty_eq, hraced.content_eq,
        hraced.ending_eq⟩
  | _ => cases h

/-- The timer goes on until the delay is over. -/
theorem Armed.after {left : Nat} {ending : LineEnding} (h : Armed b left text ending)
    (hleaves : o.action.leavesTimer = true)
    (hearly : o.action.duration < left ∨ o.action.advances = false) :
    Armed (b.after o) (left - o.action.duration) text ending := by
  obtain ⟨a, d⟩ := o
  cases a with
  | subscribe name => exact ⟨h.timer_eq, h.dirty_eq, h.content_eq, h.ending_eq⟩
  | advance ms =>
      have hlt : ms < left := hearly.resolve_right Bool.noConfusion
      have hafter : b.after ⟨.advance ms, d⟩ = { b with timer := some (left - ms) } := by
        show (b.advance d ms).1 = _
        rcases b.advance_cases d ms with ⟨hnone, -⟩ | ⟨left', ht, -, h'⟩ | ⟨left', ht, hle, -⟩
        · cases hnone.symm.trans h.timer_eq
        · obtain rfl := Option.some.inj (ht.symm.trans h.timer_eq)
          rw [h']
        · obtain rfl := Option.some.inj (ht.symm.trans h.timer_eq)
          omega
      rw [hafter]
      exact ⟨rfl, h.dirty_eq, h.content_eq, h.ending_eq⟩
  | _ => exact Bool.noConfusion hleaves

/-- While a text waits, the timer runs for it. -/
theorem Waits.armed {between : List Occasion} (h : Waits b.options.delay o text between)
    (hauto : b.options.autosave = true) (before : List Occasion) :
    Armed (b.history (before ++ o :: between)) (b.options.delay - elapsed between) text
      (b.history before).ending := by
  induction between using List.reverseRecOn with
  | nil =>
      have hoptions : (b.history before).options = b.options := options_history b before
      have hstart := armed_after (b := b.history before) (hoptions ▸ hauto) h.brings
      rw [hoptions] at hstart
      rw [history_snoc]
      exact hstart
  | append_singleton between o' ih =>
      obtain ⟨hwaits, hleaves, hearly⟩ := waits_snoc.1 h
      have harmed := ih hwaits
      have hle := hwaits.elapsed_le
      have hnext := harmed.after hleaves (hearly.imp_left fun hlt => by omega)
      have hhistory : b.history (before ++ o :: (between ++ [o'])) =
          (b.history (before ++ o :: between)).after o' := by
        rw [← List.cons_append, ← List.append_assoc, history_snoc]
      have hleft : b.options.delay - elapsed (between ++ [o']) =
          b.options.delay - elapsed between - o'.action.duration := by
        rw [elapsed_append, elapsed_cons, elapsed_nil]
        omega
      rw [hhistory, hleft]
      exact hnext

/-- A text that is brought waits for the whole delay. -/
theorem waitsAtEnd_snoc_of_timedText? (delay : Nat) (os : List Occasion)
    (h : o.action.timedText? = some text) : WaitsAtEnd delay (os ++ [o]) delay :=
  ⟨os, o, text, [], rfl, waits_nil h, rfl⟩

/-- A text that waits goes on to wait for what is left. -/
theorem WaitsAtEnd.snoc {delay left left' : Nat} (h : WaitsAtEnd delay os left')
    (hleaves : o.action.leavesTimer = true) (hleft : left + o.action.duration = left')
    (hearly : o.action.duration < left' ∨ o.action.advances = false) :
    WaitsAtEnd delay (os ++ [o]) left := by
  obtain ⟨before, o', text, between, rfl, hwaits, hsum⟩ := h
  refine ⟨before, o', text, between ++ [o], by simp, ?_, ?_⟩
  · exact waits_snoc.2 ⟨hwaits, hleaves, hearly.imp_left fun hlt => by omega⟩
  · rw [elapsed_append, elapsed_cons, elapsed_nil]
    omega

/-- The timer runs only for a text that waits. -/
theorem waitsAtEnd_of_timer (hidle : b.timer = none) {left : Nat}
    (h : (b.history os).timer = some left) : WaitsAtEnd b.options.delay os left := by
  -- from the end, as the timer after an action depends on the timer in front of it
  induction os using List.reverseRecOn generalizing left with
  | nil => cases hidle.symm.trans h
  | append_singleton os o ih =>
      have htimer : o.action.timerAfter b.options (b.history os).timer = some left := by
        rw [← h, history_snoc, after, timer_perform, options_history]
      obtain ⟨a, d⟩ := o
      cases a with
      | subscribe name => exact (ih htimer).snoc rfl rfl (Or.inr rfl)
      | update timed text =>
          cases timed with
          | false => simp [BufferAction.timerAfter] at htimer
          | true =>
              simp only [BufferAction.timerAfter, Bool.and_true, Option.ite_none_right_eq_some,
                Option.some.injEq] at htimer
              rw [← htimer.2]
              exact waitsAtEnd_snoc_of_timedText? b.options.delay os rfl
      | saveRacing text =>
          simp only [BufferAction.timerAfter, Option.ite_none_right_eq_some,
            Option.some.injEq] at htimer
          rw [← htimer.2]
          exact waitsAtEnd_snoc_of_timedText? b.options.delay os rfl
      | advance ms =>
          simp only [BufferAction.timerAfter, Option.bind_eq_some_iff,
            Option.ite_none_left_eq_some, Option.some.injEq] at htimer
          obtain ⟨left', ht, hlt, hleft⟩ := htimer
          have hsum : left + ms = left' := by omega
          exact (ih ht).snoc rfl hsum (Or.inl (Nat.lt_of_not_le hlt))
      | _ => cases htimer

/-- **The timer runs for the text that waits**, with what is left of the delay. -/
theorem timer_history_iff (hauto : b.options.autosave = true) (hidle : b.timer = none)
    (os : List Occasion) (left : Nat) :
    (b.history os).timer = some left ↔ WaitsAtEnd b.options.delay os left := by
  constructor
  · exact waitsAtEnd_of_timer hidle
  · rintro ⟨before, o, text, between, rfl, hwaits, hsum⟩
    rw [(hwaits.armed hauto before).timer_eq]
    congr 1
    omega

/-! ## Autosaves happen when the delay is over -/

theorem autosave?_eq_some_iff {now : Nat} {a : BufferAction} {x : Autosave} :
    b.autosave? now a = some x ↔ ∃ ms left, a = .advance ms ∧ b.timer = some left ∧ left ≤ ms ∧
      b.dirty = true ∧ x = ⟨now + left, b.snapshot.text⟩ := by
  constructor
  · intro h
    unfold autosave? at h
    split at h
    · next ms left ht =>
      simp only [Option.ite_none_right_eq_some, Option.some.injEq] at h
      obtain ⟨⟨hle, hdirty⟩, hx⟩ := h
      exact ⟨ms, left, rfl, ht, hle, hdirty, hx.symm⟩
    · cases h
  · rintro ⟨ms, left, rfl, ht, hle, hdirty, rfl⟩
    simp [autosave?, ht, hle, hdirty]

theorem autosaves_append (b : Buffer) (now : Nat) (os os' : List Occasion) :
    b.autosaves now (os ++ os') =
      b.autosaves now os ++ (b.history os).autosaves (now + elapsed os) os' := by
  induction os generalizing b now with
  | nil => rfl
  | cons o os ih =>
      rw [List.cons_append, autosaves, autosaves, ih, history_cons, elapsed_cons, Nat.add_assoc,
        List.append_assoc]

/-- Every autosave happens during an occasion of the history. -/
theorem mem_autosaves {now : Nat} {x : Autosave} :
    x ∈ b.autosaves now os ↔ ∃ before o after, os = before ++ o :: after ∧
      (b.history before).autosave? (now + elapsed before) o.action = some x := by
  constructor
  · intro h
    induction os generalizing b now with
    | nil => cases h
    | cons o os ih =>
        rcases List.mem_append.1 h with hhead | htail
        · exact ⟨[], o, os, rfl, Option.mem_toList.1 hhead⟩
        · obtain ⟨before, o', after, rfl, hx⟩ := ih htail
          refine ⟨o :: before, o', after, rfl, ?_⟩
          rw [history_cons, elapsed_cons, ← Nat.add_assoc]
          exact hx
  · rintro ⟨before, o, after, rfl, hx⟩
    rw [autosaves_append, autosaves, hx]
    simp

/-- What is saved at the end of the timer is the text that waits. -/
theorem Armed.autosave?_eq {left ms now : Nat} {ending : LineEnding}
    (h : Armed b left text ending) (hle : left ≤ ms) :
    b.autosave? now (.advance ms) =
      some ⟨now + left, ending.apply (LineEnding.normalize text)⟩ := by
  have hsnapshot : b.snapshot.text = ending.apply (LineEnding.normalize text) := by
    rw [snapshot, h.content_eq, h.ending_eq]
  rw [← hsnapshot]
  exact autosave?_eq_some_iff.2 ⟨ms, left, rfl, h.timer_eq, hle, h.dirty_eq, rfl⟩

/-- The timer of a text that waits ends when the delay is over. -/
theorem Waits.end_eq {delay : Nat} {between : List Occasion} (h : Waits delay o text between)
    (now : Nat) (before : List Occasion) :
    now + elapsed (before ++ o :: between) + (delay - elapsed between) =
      now + elapsed before + delay := by
  have hle : elapsed between ≤ delay := h.elapsed_le
  have hzero : o.action.duration = 0 := duration_of_timedText? h.brings
  rw [elapsed_append, elapsed_cons, hzero]
  omega

/-- **When an autosave happens, and what it writes.** -/
theorem mem_autosaves_iff (hauto : b.options.autosave = true) (hidle : b.timer = none) (now : Nat)
    (os : List Occasion) (x : Autosave) : x ∈ b.autosaves now os ↔ b.DelayOver now os x := by
  rw [mem_autosaves]
  constructor
  · rintro ⟨front, o', after, rfl, hx⟩
    obtain ⟨ms, left, ha, ht, hle, -, -⟩ := autosave?_eq_some_iff.1 hx
    obtain ⟨before, o, text, between, rfl, hwaits, hsum⟩ := waitsAtEnd_of_timer hidle ht
    have hleft : left = b.options.delay - elapsed between := by omega
    have harmed := hwaits.armed hauto before
    rw [← hleft] at harmed
    rw [ha, harmed.autosave?_eq hle] at hx
    obtain rfl := Option.some.inj hx
    have ho' : o' = ⟨.advance ms, o'.disk⟩ := by rw [← ha]
    refine ⟨before, o, text, between, ms, o'.disk, after, by rw [← ho'], hwaits, ?_, ?_, rfl⟩
    · rw [hleft]
      exact hwaits.end_eq now before
    · have hend := hwaits.end_eq now before
      show now + elapsed (before ++ o :: between) + left ≤ _
      omega
  · rintro ⟨before, o, text, between, ms, d, after, rfl, hwaits, hx, hdue, hxtext⟩
    have hle : b.options.delay - elapsed between ≤ ms := by omega
    refine ⟨before ++ o :: between, ⟨.advance ms, d⟩, after, rfl, ?_⟩
    rw [(hwaits.armed hauto before).autosave?_eq hle, hwaits.end_eq now before, ← hx, ← hxtext]

/-! ## What the autosaves of a history are like -/

/-- Texts each of which is replaced while it waits. -/
inductive Burst (delay : Nat) : List Occasion → Prop
  | nil : Burst delay []
  | replaced {o : Occasion} {text : List Char} {between os : List Occasion}
      (h : Waits delay o text between) (hos : Burst delay os) : Burst delay (o :: between ++ os)

/-- What becomes of the buffer `b` and the disk `d` when an autosave attempts to write `text`: they
are `b'` and `d'` then. -/
structure Attempted (b : Buffer) (d : Disk) (text : List Char) (b' : Buffer) (d' : Disk) : Prop where
  /-- A write that succeeds is what is done to the disk, where the file holds the text from then on.
  The buffer is clean, every subscriber is told, and nothing else is touched but the timer. -/
  saved : ∀ written, d.write b.path text = .ok written →
    d' = written ∧ d'.read b.path = .ok text ∧
      b' = { b with
        timer := none, dirty := false
        delivered := b.delivered ++ b.subscribers.map fun name => ⟨name, .saved b.file⟩ }
  /-- A write that fails leaves the disk as it is and the buffer dirty, with its text; every
  subscriber is told. -/
  failed : ∀ fault, d.write b.path text = .error fault →
    d' = d ∧ b'.dirty = true ∧
      b' = { b with
        timer := none
        delivered := b.delivered ++ b.subscribers.map fun name => ⟨name, .saveFailed fault⟩ }

/-- What is promised of the autosaves of a history that starts at `now`. -/
structure Debounced (b : Buffer) (now : Nat) (os : List Occasion) : Prop where
  /-- An autosave happens exactly when the delay of a text that waits is over, and writes the text
  with the line ending of the buffer. -/
  happens : ∀ x, x ∈ b.autosaves now os ↔ b.DelayOver now os x
  /-- An autosave is one attempt to write its text to the disk that is there; without an autosave,
  the passage of time writes and tells nothing. -/
  attempts : ∀ before ms d after, os = before ++ ⟨.advance ms, d⟩ :: after →
    (∀ x, (b.history before).autosave? (now + elapsed before) (.advance ms) = some x →
      (b.history before).Attempted d x.text ((b.history before).advance d ms).1
        ((b.history before).advance d ms).2) ∧
    ((b.history before).autosave? (now + elapsed before) (.advance ms) = none →
      ((b.history before).advance d ms).2 = d ∧
        ((b.history before).advance d ms).1.delivered = (b.history before).delivered)
  /-- At most one text waits: the last one, for which the timer runs. -/
  pending : ∀ left, (b.history os).timer = some left ↔ WaitsAtEnd b.options.delay os left
  /-- Autosaves are at least the delay apart. -/
  spaced : (b.autosaves now os).Pairwise fun x y => x.time + b.options.delay ≤ y.time
  /-- A burst has one autosave, which writes the last of its texts. -/
  once : ∀ before front o text between ms d after,
    os = before ++ (front ++ o :: between ++ [⟨.advance ms, d⟩]) ++ after →
    Burst b.options.delay front → Waits b.options.delay o text between →
    b.options.delay ≤ elapsed between + ms →
    (b.history before).autosaves (now + elapsed before)
        (front ++ o :: between ++ [⟨.advance ms, d⟩]) =
      [⟨now + elapsed before + elapsed front + b.options.delay,
        (b.history (before ++ front)).ending.apply (LineEnding.normalize text)⟩]
  /-- Behind a reload or a disposal, only texts that came later are written. -/
  fresh : ∀ before o after, os = before ++ o :: after →
    o.action = .reload ∨ o.action = .dispose →
    ∀ x ∈ (b.history (before ++ [o])).autosaves (now + elapsed (before ++ [o])) after,
      ∃ front o' text back, after = front ++ o' :: back ∧ o'.action.timedText? = some text ∧
        x.text = (b.history (before ++ o :: front)).ending.apply (LineEnding.normalize text)

/-- The autosaves of an idle buffer begin no earlier than the delay. -/
theorem le_time_of_mem_autosaves (hauto : b.options.autosave = true) (hidle : b.timer = none)
    {now : Nat} {x : Autosave} (hx : x ∈ b.autosaves now os) : now + b.options.delay ≤ x.time := by
  obtain ⟨before, _, _, _, _, _, _, -, -, htime, -, -⟩ :=
    (mem_autosaves_iff hauto hidle now os x).1 hx
  omega

theorem pairwise_autosaves (hauto : b.options.autosave = true) (now : Nat) (os : List Occasion) :
    (b.autosaves now os).Pairwise fun x y => x.time + b.options.delay ≤ y.time := by
  induction os generalizing b now with
  | nil => exact List.Pairwise.nil
  | cons o os ih =>
      have hoptions : (b.after o).options = b.options :=
        b.options_perform o.disk o.action
      have htail := ih (b := b.after o) (hoptions ▸ hauto) (now + o.action.duration)
      rw [hoptions] at htail
      rw [autosaves]
      cases hx : b.autosave? now o.action with
      | none => exact htail
      | some x =>
          -- the timer has ended, so that the next autosave needs a text that comes later
          obtain ⟨ms, left, ha, ht, hle, -, rfl⟩ := autosave?_eq_some_iff.1 hx
          have hidle : (b.after o).timer = none := by
            rw [after, timer_perform, ha, ht]
            exact if_pos hle
          refine List.pairwise_cons.2 ⟨fun y hy => ?_, htail⟩
          have hlate := le_time_of_mem_autosaves (hoptions ▸ hauto) hidle hy
          rw [hoptions, ha] at hlate
          have hduration : (BufferAction.advance ms).duration = ms := rfl
          show now + left + b.options.delay ≤ y.time
          omega

/-- While the delay is not over, nothing is saved. -/
theorem Armed.autosave?_eq_none {left now : Nat} {ending : LineEnding}
    (h : Armed b left text ending)
    (hearly : o.action.duration < left ∨ o.action.advances = false) :
    b.autosave? now o.action = none := by
  by_contra hsome
  obtain ⟨x, hx⟩ := Option.ne_none_iff_exists'.1 hsome
  obtain ⟨ms, left', ha, ht, hle, -, -⟩ := autosave?_eq_some_iff.1 hx
  obtain rfl := Option.some.inj (ht.symm.trans h.timer_eq)
  rw [ha] at hearly
  rcases hearly with hlt | hnot
  · exact Nat.not_le.2 hlt hle
  · cases hnot

theorem autosaves_of_waits {between : List Occasion} (hauto : b.options.autosave = true)
    (h : Waits b.options.delay o text between) (now : Nat) :
    b.autosaves now (o :: between) = [] := by
  induction between using List.reverseRecOn with
  | nil =>
      have hnone : b.autosave? now o.action = none := by
        by_contra hsome
        obtain ⟨x, hx⟩ := Option.ne_none_iff_exists'.1 hsome
        obtain ⟨ms, _, ha, -⟩ := autosave?_eq_some_iff.1 hx
        have hbrings := h.brings
        rw [ha] at hbrings
        cases hbrings
      rw [autosaves, hnone]
      rfl
  | append_singleton between o' ih =>
      obtain ⟨hwaits, -, hearly⟩ := waits_snoc.1 h
      have harmed : Armed (b.history (o :: between)) _ text _ := hwaits.armed hauto []
      have hle := hwaits.elapsed_le
      have hnone : (b.history (o :: between)).autosave? (now + elapsed (o :: between)) o'.action =
          none :=
        harmed.autosave?_eq_none (hearly.imp_left fun hlt => by omega)
      rw [← List.cons_append, autosaves_append, ih hwaits, autosaves, hnone]
      rfl

theorem autosaves_of_burst {delay : Nat} (h : Burst delay os) (hauto : b.options.autosave = true)
    (hdelay : b.options.delay = delay) (now : Nat) : b.autosaves now os = [] := by
  induction h generalizing b now with
  | nil => rfl
  | @replaced o text between os h _ ih =>
      have hoptions := options_history b (o :: between)
      rw [autosaves_append, autosaves_of_waits hauto (hdelay ▸ h),
        ih (hoptions ▸ hauto) (hoptions ▸ hdelay)]
      rfl

/-- A burst has one autosave, which writes the last of its texts. -/
theorem autosaves_burst {front between : List Occasion} {ms : Nat} {d : Disk}
    (hauto : b.options.autosave = true) (hfront : Burst b.options.delay front)
    (h : Waits b.options.delay o text between) (hdue : b.options.delay ≤ elapsed between + ms)
    (now : Nat) :
    b.autosaves now (front ++ o :: between ++ [⟨.advance ms, d⟩]) =
      [⟨now + elapsed front + b.options.delay,
        (b.history front).ending.apply (LineEnding.normalize text)⟩] := by
  have hoptions : (b.history front).options = b.options := options_history b front
  have hsilent : b.autosaves now (front ++ o :: between) = [] := by
    rw [autosaves_append, autosaves_of_burst hfront hauto rfl,
      autosaves_of_waits (hoptions ▸ hauto) (hoptions ▸ h)]
    rfl
  have hle : b.options.delay - elapsed between ≤ ms := by omega
  rw [autosaves_append, hsilent, autosaves, (h.armed hauto front).autosave?_eq hle,
    h.end_eq now front]
  rfl

/-- A due autosave is the end of a save of the buffer as it is. -/
theorem advance_of_autosave?_eq_some {now ms : Nat} {x : Autosave}
    (h : b.autosave? now (.advance ms) = some x) (d : Disk) :
    b.dirty = true ∧ x.text = b.snapshot.text ∧ b.advance d ms =
      ((b.stopTimer.finish d b.snapshot).buffer, (b.stopTimer.finish d b.snapshot).disk) := by
  obtain ⟨_, left, hms, ht, hle, hdirty, rfl⟩ := autosave?_eq_some_iff.1 h
  obtain rfl := BufferAction.advance.inj hms
  refine ⟨hdirty, rfl, ?_⟩
  rcases b.advance_cases d ms with ⟨hnone, -⟩ | ⟨left', ht', hlt, -⟩ | ⟨left', -, -, h'⟩
  · cases hnone.symm.trans ht
  · obtain rfl := Option.some.inj (ht'.symm.trans ht)
    omega
  · have hsave : (b.stopTimer.dirty || false) = true := by
      rw [Bool.or_false]
      exact hdirty
    rw [h', write_eq, if_pos hsave]
    rfl

/-- **What an autosave does**, whether or not its write succeeds. -/
theorem attempted_of_autosave? {now ms : Nat} {x : Autosave}
    (h : b.autosave? now (.advance ms) = some x) (d : Disk) :
    b.Attempted d x.text (b.advance d ms).1 (b.advance d ms).2 := by
  obtain ⟨hdirty, htext, hadvance⟩ := advance_of_autosave?_eq_some h d
  rw [hadvance, htext]
  refine ⟨fun written hwrite => ?_, fun fault hwrite => ?_⟩
  · -- the version is the one that was captured, as the timer brought no other text
    have hclean : (b.dirty && b.version != b.snapshot.version) = false := by
      simp [snapshot]
    rw [finish_of_write_eq_ok (b := b.stopTimer) hwrite]
    exact ⟨rfl, Disk.read_write hwrite, by rw [← hclean]; rfl⟩
  · rw [finish_of_write_eq_error (b := b.stopTimer) hwrite]
    exact ⟨rfl, hdirty, rfl⟩

/-- Without an autosave, the passage of time writes nothing and tells nobody. -/
theorem advance_of_autosave?_eq_none {now ms : Nat} (h : b.autosave? now (.advance ms) = none)
    (d : Disk) : (b.advance d ms).2 = d ∧ (b.advance d ms).1.delivered = b.delivered := by
  rcases b.advance_cases d ms with ⟨-, h'⟩ | ⟨left, -, -, h'⟩ | ⟨left, ht, hle, h'⟩
  · rw [h']
    exact ⟨rfl, rfl⟩
  · rw [h']
    exact ⟨rfl, rfl⟩
  · have hclean : ¬ (b.stopTimer.dirty || false) = true := by
      rw [Bool.or_false]
      intro hdirty
      have hsome : b.autosave? now (.advance ms) = some ⟨now + left, b.snapshot.text⟩ :=
        autosave?_eq_some_iff.2 ⟨ms, left, rfl, ht, hle, hdirty, rfl⟩
      cases h.symm.trans hsome
    rw [h', write_eq, if_neg hclean]
    exact ⟨rfl, rfl⟩

/-- Behind a reload or a disposal, only texts that came later are written. -/
theorem exists_later_of_mem_autosaves (hauto : b.options.autosave = true) {before : List Occasion}
    (ho : o.action = .reload ∨ o.action = .dispose) {now : Nat} {x : Autosave}
    (hx : x ∈ (b.history (before ++ [o])).autosaves now os) :
    ∃ front o' text back, os = front ++ o' :: back ∧ o'.action.timedText? = some text ∧
      x.text = (b.history (before ++ o :: front)).ending.apply (LineEnding.normalize text) := by
  have hidle : (b.history (before ++ [o])).timer = none := by
    rw [history_snoc, after, timer_perform]
    rcases ho with ho | ho <;> rw [ho] <;> rfl
  have hoptions := options_history b (before ++ [o])
  obtain ⟨front, o', text, between, ms, d, rest, rfl, hwaits, -, -, htext⟩ :=
    (mem_autosaves_iff (hoptions ▸ hauto) hidle now os x).1 hx
  refine ⟨front, o', text, between ++ ⟨.advance ms, d⟩ :: rest, by simp, hwaits.brings, ?_⟩
  rw [htext, ← history_append, List.append_assoc]
  rfl

/-- **Autosaves are debounced**, in every history of a buffer that saves by itself. -/
theorem debounced_autosaves (hauto : b.options.autosave = true) (hidle : b.timer = none) (now : Nat)
    (os : List Occasion) : Debounced b now os where
  happens := mem_autosaves_iff hauto hidle now os
  attempts := by
    rintro before ms d after -
    exact ⟨fun x hx => attempted_of_autosave? hx d,
      fun hnone => advance_of_autosave?_eq_none hnone d⟩
  pending := timer_history_iff hauto hidle os
  spaced := pairwise_autosaves hauto now os
  once := by
    rintro before front o text between ms d after - hfront hwaits hdue
    have hoptions := options_history b before
    have honce := autosaves_burst (d := d) (hoptions ▸ hauto) (hoptions ▸ hfront)
      (hoptions ▸ hwaits) (hoptions ▸ hdue) (now + elapsed before)
    rw [hoptions, ← history_append] at honce
    exact honce
  fresh := fun _ _ _ _ ho _ hx => exists_later_of_mem_autosaves hauto ho hx

/-- Two texts within the delay, of which the last is saved, and one that is saved later, during a
save that races it. -/
theorem debounced_autosaves_three_texts :
    let b := create .standard "a.tks".toList "步骤:\r\n返回".toList
    let front : List Occasion :=
      [⟨.update true "步骤:\n等待 [1]".toList, []⟩, ⟨.advance 600, []⟩,
        ⟨.update true "步骤:\n等待 [2]".toList, []⟩, ⟨.advance 1000, []⟩,
        ⟨.saveRacing "步骤:\n等待 [3]".toList, []⟩]
    let os := front ++ [⟨.advance 1500, []⟩]
    b.options.autosave = true ∧ b.timer = none ∧
      b.autosaves 0 os =
        [⟨1600, "步骤:\r\n等待 [2]".toList⟩, ⟨2600, "步骤:\r\n等待 [3]".toList⟩] ∧
      Debounced b 0 os ∧ (b.history os).dirty = false ∧
      ((b.history front).advance [] 1500).2.read b.path = .ok "步骤:\r\n等待 [3]".toList := by
  intro b front os
  have hdebounced : Debounced b 0 os := debounced_autosaves rfl rfl 0 _
  have hdue : (b.history front).autosave? (0 + elapsed front) (.advance 1500) =
      some ⟨2600, "步骤:\r\n等待 [3]".toList⟩ := by decide
  have hattempted := (hdebounced.attempts front 1500 [] [] rfl).1 _ hdue
  obtain ⟨-, hread, hbuffer⟩ := hattempted.saved _ rfl
  refine ⟨rfl, rfl, by decide, hdebounced, ?_, hread⟩
  rw [history_snoc]
  show ((b.history front).advance [] 1500).1.dirty = false
  rw [hbuffer]

end Buffer

end StepScript
