import StepScript.Proofs.OwnProcess
import StepScript.Proofs.Trim
import StepScript.Run.Process

/-!
# Programs that are started from outside

What a device behind a program replies depends on what the program writes, and a refresh on how it
ends.

The simplest program behind a device is one that prints a verdict, whatever it is asked to run. The
format `Format.literal s` makes `printf` print the text `s` and nothing else, so a device with a
verdict in such a format replies with this verdict to every line. The way there leads through the
search for the program, its run, the bytes that it writes and the reading of them.

Main statements:

* `exited_lt_of_launch` — a program that exits does so with a status of eight bits;
* `launch_printf` — what `printf` prints;
* `dispatch_printf` — what the device replies.
-/

set_option autoImplicit false

namespace StepScript.Shell

open Text

/-! ## The bytes of a text -/

namespace Bytes

theorem ofText_append (s t : List Char) : ofText (s ++ t) = ofText s ++ ofText t := by
  rw [ofText, Utf8.encode, List.flatMap_append, List.map_append]
  rfl

theorem toNat_ofNat_byte (b : UInt8) : (Char.ofNat b.toNat).toNat = b.toNat := by
  have hb := b.toNat_lt
  exact Utf8.toNat_ofNat (by omega)

theorem toList_ofText (s : List Char) : toList (ofText s) = Utf8.encode s := by
  rw [toList, ofText, List.map_map]
  refine (List.map_congr_left fun b _ => ?_).trans (List.map_id _)
  change UInt8.ofNat (Char.ofNat b.toNat).toNat = b
  rw [toNat_ofNat_byte, UInt8.ofNat_toNat]

/-- A character is its own byte, or it has none of the first 128. -/
theorem ofText_singleton (c : Char) : ofText [c] = [c] ∨ ∀ b ∈ ofText [c], 128 ≤ b.toNat := by
  rw [ofText, Utf8.encode, List.flatMap_singleton]
  obtain ⟨b, hbytes, hb⟩ | hle := (Utf8.spells_utf8EncodeChar c).eq_or_le
  · left
    rw [hbytes, List.map_singleton, hb, Char.ofNat_toNat]
  · right
    intro b hb
    obtain ⟨a, ha, rfl⟩ := List.mem_map.1 hb
    rw [toNat_ofNat_byte]
    exact hle a ha

end Bytes

/-! ## Formats -/

namespace Format

/-- The format that prints a text as it is. -/
def literal (s : Bytes) : Bytes :=
  s.flatMap fun c => if c = '\\' ∨ c = '%' then [c, c] else [c]

theorem literal_append (s t : Bytes) : literal (s ++ t) = literal s ++ literal t :=
  List.flatMap_append

theorem mem_of_mem_literal {s : Bytes} {c : Char} (h : c ∈ literal s) : c ∈ s := by
  obtain ⟨d, hd, hc⟩ := List.mem_flatMap.1 h
  split at hc
  · obtain rfl : c = d := by simpa using hc
    exact hd
  · obtain rfl : c = d := by simpa using hc
    exact hd

theorem literal_cons_of_plain {c : Char} (hc : isPlain c = true) (s : Bytes) :
    literal (c :: s) = c :: literal s := by
  simp only [isPlain, Bool.and_eq_true, bne_iff_ne] at hc
  rw [literal, List.flatMap_cons, if_neg (not_or.2 hc)]
  rfl

theorem length_le_literal (s : Bytes) : s.length ≤ (literal s).length := by
  induction s with
  | nil => exact Nat.le_refl 0
  | cons c s ih =>
    have hpos : 1 ≤ (if c = '\\' ∨ c = '%' then [c, c] else [c]).length := by split <;> simp
    rw [literal, List.flatMap_cons, List.length_append, List.length_cons, ← literal]
    omega

theorem literal_of_plain {s : Bytes} (h : ∀ c ∈ s, isPlain c = true) : literal s = s := by
  induction s with
  | nil => rfl
  | cons c s ih =>
    rw [literal_cons_of_plain (h c List.mem_cons_self),
      ih fun d hd => h d (List.mem_cons_of_mem _ hd)]

/-- The bytes of a literal format are a literal format for the bytes. -/
theorem ofText_literal (s : List Char) : Bytes.ofText (literal s) = literal (Bytes.ofText s) := by
  induction s with
  | nil => rfl
  | cons c s ih =>
    have hchar : Bytes.ofText (literal [c]) = literal (Bytes.ofText [c]) := by
      by_cases hback : c = '\\'
      · subst hback; rfl
      by_cases hpercent : c = '%'
      · subst hpercent; rfl
      have hc : isPlain c = true := by simp [isPlain, hback, hpercent]
      rw [literal_of_plain (s := [c]) (by simpa using hc), literal_of_plain]
      obtain heq | hle := Bytes.ofText_singleton c
      · simpa [heq] using hc
      · intro b hb
        have hb := hle b hb
        simp only [isPlain, Bool.and_eq_true, bne_iff_ne]
        refine ⟨?_, ?_⟩ <;> rintro rfl <;> exact absurd hb (by decide)
    rw [← List.singleton_append, literal_append, Bytes.ofText_append, Bytes.ofText_append,
      literal_append, hchar, ih]

/-- A literal format starts with what its text starts with, up to a character that is printed in
another way. -/
theorem literal_takeWhile_dropWhile (s : Bytes) :
    (literal s).takeWhile isPlain = s.takeWhile isPlain ∧
      (literal s).dropWhile isPlain = literal (s.dropWhile isPlain) := by
  induction s with
  | nil => exact ⟨rfl, rfl⟩
  | cons c s ih =>
    cases hc : isPlain c with
    | true =>
      rw [literal_cons_of_plain hc, List.takeWhile_cons_of_pos hc, List.takeWhile_cons_of_pos hc,
        List.dropWhile_cons_of_pos hc, List.dropWhile_cons_of_pos hc, ih.1, ih.2]
      exact ⟨rfl, rfl⟩
    | false =>
      have hdouble : ∃ t, literal (c :: s) = c :: t := by
        rw [literal, List.flatMap_cons]
        split <;> exact ⟨_, rfl⟩
      obtain ⟨t, ht⟩ := hdouble
      have hnot : ¬isPlain c = true := by simp [hc]
      rw [List.dropWhile_cons_of_neg hnot, ht, List.takeWhile_cons_of_neg hnot,
        List.takeWhile_cons_of_neg hnot, List.dropWhile_cons_of_neg hnot]
      exact ⟨rfl, rfl⟩

/-- The machine after a part of the output of a command. -/
def emitted (m : Machine) (part : Bytes) : Machine :=
  { m with shell := { m.shell with buffer := part :: m.shell.buffer } }

theorem once_backslash (fuel : Nat) (s : Bytes) (p : Printing) (m : Machine) :
    (once (fuel + 1) ('\\' :: '\\' :: s)).run p m = (once fuel s).run p (emitted m ['\\']) :=
  rfl

theorem once_percent (fuel : Nat) (s : Bytes) (p : Printing) (m : Machine) :
    (once (fuel + 1) ('%' :: '%' :: s)).run p m = (once fuel s).run p (emitted m ['%']) :=
  rfl

theorem once_plain (fuel : Nat) {c : Char} (hc : isPlain c = true) (s : Bytes) (p : Printing)
    (m : Machine) :
    (once (fuel + 1) (c :: s)).run p m =
      (once fuel ((c :: s).dropWhile isPlain)).run p (emitted m ((c :: s).takeWhile isPlain)) := by
  simp only [isPlain, Bool.and_eq_true, bne_iff_ne] at hc
  rw [once]
  · rfl
  · simp
  · intro t h
    exact hc.1 (List.cons.inj h).1
  · intro t h
    exact hc.2 (List.cons.inj h).1
  · intro t h
    exact hc.2 (List.cons.inj h).1

/-- A literal format is used up, and its text is written. -/
theorem once_literal {fuel : Nat} {s : Bytes} (h : s.length < fuel) (p : Printing) (m : Machine) :
    ∃ parts : List Bytes, parts.reverse.flatten = s ∧
      (once fuel (literal s)).run p m =
        .ok (true, p) { m with shell := { m.shell with buffer := parts ++ m.shell.buffer } } := by
  induction fuel generalizing s m with
  | zero => cases h
  | succ fuel ih =>
    -- The rest of the text is printed behind the part that one step prints.
    have hstep : ∀ (part rest : Bytes), part ++ rest = s → rest.length < fuel →
        (once (fuel + 1) (literal s)).run p m = (once fuel (literal rest)).run p (emitted m part) →
        ∃ parts : List Bytes, parts.reverse.flatten = s ∧
          (once (fuel + 1) (literal s)).run p m =
            .ok (true, p) { m with shell := { m.shell with buffer := parts ++ m.shell.buffer } } := by
      intro part rest hs hrest hrun
      obtain ⟨parts, hparts, hmore⟩ := ih hrest (emitted m part)
      refine ⟨parts ++ [part], by simp [hparts, hs], hrun.trans (hmore.trans ?_)⟩
      rw [List.append_assoc]
      rfl
    cases s with
    | nil => exact ⟨[], rfl, rfl⟩
    | cons c s =>
      have hlt : s.length < fuel := Nat.lt_of_succ_lt_succ h
      by_cases hback : c = '\\'
      · subst hback
        exact hstep ['\\'] s rfl hlt (once_backslash fuel (literal s) p m)
      by_cases hpercent : c = '%'
      · subst hpercent
        exact hstep ['%'] s rfl hlt (once_percent fuel (literal s) p m)
      · have hc : isPlain c = true := by simp [isPlain, hback, hpercent]
        refine hstep ((c :: s).takeWhile isPlain) ((c :: s).dropWhile isPlain)
          List.takeWhile_append_dropWhile ?_ ?_
        · rw [List.dropWhile_cons_of_pos hc]
          exact Nat.lt_of_le_of_lt (List.dropWhile_suffix _).length_le hlt
        · rw [literal_cons_of_plain hc, once_plain fuel hc, ← literal_cons_of_plain hc,
            (literal_takeWhile_dropWhile _).1, (literal_takeWhile_dropWhile _).2]

theorem run_repeatedly (format : Bytes) (fuel : Nat) (p : Printing) :
    (repeatedly format (fuel + 1)).run p =
      (once (format.length + 1) format).run p >>= fun (goesOn, q) =>
        if goesOn && q.args.length != 0 && q.args.length != p.args.length then
          (repeatedly format fuel).run q
        else pure ((), q) := by
  rw [repeatedly, StateT.run_bind, StateT.run_get, pure_bind, StateT.run_bind]
  congr 1
  funext ⟨goesOn, q⟩
  cases goesOn with
  | false => rfl
  | true =>
    rw [if_pos rfl, StateT.run_bind, StateT.run_get, pure_bind]
    dsimp only
    rw [Bool.true_and]
    split <;> rfl

theorem print_literal (s : Bytes) (args : List Bytes) (m : Machine) :
    ∃ parts : List Bytes, parts.reverse.flatten = s ∧
      Act.print (literal s) args m =
        .ok 0 { m with shell := { m.shell with buffer := parts ++ m.shell.buffer } } := by
  obtain ⟨parts, hparts, hrun⟩ :=
    once_literal (Nat.lt_succ_of_le (length_le_literal s)) ⟨args, 0⟩ m
  refine ⟨parts, hparts, Act.bind_eq_ok.2 ⟨((), ⟨args, 0⟩), _, ?_, rfl⟩⟩
  rw [run_repeatedly]
  refine Act.bind_eq_ok.2 ⟨(true, ⟨args, 0⟩), _, hrun, ?_⟩
  simp
  rfl

end Format

/-! ## Output -/

namespace World

/-- What is written in the order of time is kept in this order. -/
theorem collected_of_pairwise {chunks : List (Nat × Bytes)}
    (h : chunks.Pairwise fun a b => b.1 ≤ a.1) :
    collected chunks = chunks.reverse.flatMap (·.2) := by
  rw [collected, List.mergeSort_of_pairwise]
  simpa [List.pairwise_reverse] using h

/-- A write at a time that no write before was later than adds to what was written. -/
theorem written_write {w w' : World} {stream time size : Nat} {bound : Option Nat}
    {chunks : List (Nat × Bytes)} {bytes : Bytes}
    (hstream : w.streams[stream]? = some (.collector bound size chunks))
    (htime : ((time, bytes) :: chunks).Pairwise fun a b => b.1 ≤ a.1)
    (h : w.write stream time bytes = .done w') :
    w'.written stream = w.written stream ++ bytes := by
  have hlt : stream < w.streams.size := (Array.getElem?_eq_some_iff.1 hstream).1
  have hbefore : w.written stream = chunks.reverse.flatMap (·.2) := by
    rw [written, hstream]
    exact collected_of_pairwise htime.of_cons
  unfold write at h
  rw [hstream] at h
  dsimp only at h
  split at h
  · cases h
  · cases h
    rw [hbefore, written]
    simp [hlt, collected_of_pairwise htime]

end World

/-- A machine has a **collector**: a stream without a bound, to which nothing was written later than
now. -/
structure HasCollector (m : Machine) (stream : Nat) : Prop where
  exists_chunks : ∃ size chunks, m.world.streams[stream]? = some (.collector none size chunks) ∧
    (∀ c ∈ chunks, c.1 ≤ m.shell.clock) ∧ chunks.Pairwise fun a b => b.1 ≤ a.1

theorem HasCollector.congr {m m' : Machine} {stream : Nat} (h : HasCollector m stream)
    (hclock : m'.shell.clock = m.shell.clock) (hworld : m'.world = m.world) :
    HasCollector m' stream where
  exists_chunks := by
    rw [hclock, hworld]
    exact h.exists_chunks

theorem hasCollector_machine (name : Bytes) : HasCollector (Launch.machine name) 1 :=
  ⟨0, [], rfl, by simp, .nil⟩

section

variable {m : Machine} {stream : Nat}

theorem writeTo_eq_ok (bytes : Bytes) (hcollector : HasCollector m stream) :
    ∃ world, Act.writeTo stream bytes m = .ok true ⟨m.shell, world⟩ ∧
      world.written stream = m.world.written stream ++ bytes := by
  unfold Act.writeTo
  cases bytes with
  | nil => exact ⟨m.world, rfl, (List.append_nil _).symm⟩
  | cons b bytes =>
    obtain ⟨size, chunks, hstream, htime, hordered⟩ := hcollector.exists_chunks
    obtain ⟨world, hwrite⟩ : ∃ world,
        m.world.write stream m.shell.clock (b :: bytes) = .done world := by
      unfold World.write
      rw [hstream]
      exact ⟨_, rfl⟩
    refine ⟨world, Act.bind_eq_ok.2 ⟨some true, ⟨m.shell, world⟩, ?_, rfl⟩,
      World.written_write hstream (List.pairwise_cons.2 ⟨htime, hordered⟩) hwrite⟩
    change EStateM.modifyGet _ _ = _
    unfold EStateM.modifyGet
    simp [hwrite]

/-- The output of a command goes to the collector that its channel leads to. -/
theorem flush_eq_ok (hchannel : m.shell.channels.lookup 1 = some stream)
    (hcollector : HasCollector m stream) :
    ∃ world, Act.flush m = .ok true ⟨{ m.shell with buffer := [] }, world⟩ ∧
      world.written stream = m.world.written stream ++ m.shell.buffer.reverse.flatten := by
  cases hbuffer : m.shell.buffer with
  | nil =>
    have hshell : { m.shell with buffer := [] } = m.shell := by rw [← hbuffer]
    refine ⟨m.world, Act.bind_eq_ok.2 ⟨m.shell, m, rfl, ?_⟩, by simp⟩
    rw [hbuffer, hshell]
    rfl
  | cons part parts =>
    obtain ⟨world, hwrite, hwritten⟩ := writeTo_eq_ok
      (m := ⟨{ m.shell with buffer := [] }, m.world⟩) (part :: parts).reverse.flatten
      (hcollector.congr rfl rfl)
    refine ⟨world, Act.bind_eq_ok.2 ⟨m.shell, m, rfl, ?_⟩, hwritten⟩
    rw [hbuffer]
    refine Act.bind_eq_ok.2 ⟨(), ⟨{ m.shell with buffer := [] }, m.world⟩, rfl,
      Act.bind_eq_ok.2 ⟨some stream, ⟨{ m.shell with buffer := [] }, m.world⟩, ?_, hwrite⟩⟩
    exact congrArg (EStateM.Result.ok · _) hchannel

end

/-! ## Programs -/

theorem program_printf : Launch.program (Bytes.ofText "printf".toList) = .ok "printf" := by
  rfl

/-- A process that goes on as `printf` with a literal format writes the text of the format to its
channel, and succeeds. -/
theorem inPlace_printf (run : Runner) (fuel : Nat) (name s : Bytes) (args : List Bytes)
    (environment : List (Bytes × Bytes)) {m : Machine} {stream : Nat}
    (hchannel : m.shell.channels.lookup 1 = some stream) (hcollector : HasCollector m stream) :
    ∃ m', Act.inPlace run (fuel + 1) "printf" name (Format.literal s :: args) environment m =
        .ok (.exited 0) m' ∧ m'.world.written stream = m.world.written stream ++ s := by
  obtain ⟨parts, hparts, hprint⟩ :=
    Format.print_literal s args ⟨Act.asProgram name m.shell, m.world⟩
  let printed : State := { Act.asProgram name m.shell with buffer := parts ++ [] }
  obtain ⟨world, hflush, hwritten⟩ :=
    flush_eq_ok (m := ⟨printed, m.world⟩) hchannel (hcollector.congr rfl rfl)
  refine ⟨⟨{ printed with buffer := [] }, world⟩, ?_, ?_⟩
  · -- it prints into its buffer, which is written as it ends
    unfold Act.inPlace
    refine Act.bind_eq_ok.2 ⟨(), _, rfl, ?_⟩
    rw [if_neg (by decide), if_neg (by decide)]
    refine Act.bind_eq_ok.2 ⟨.ok 0, _, Act.attempt_of_ok ?_, rfl⟩
    exact Act.bind_eq_ok.2 ⟨0, _, hprint, Act.bind_eq_ok.2 ⟨true, _, hflush, rfl⟩⟩
  · rw [hwritten, ← hparts]
    simp [printed]

theorem launch_of_inPlace {name : List Char} {args : List (List Char)} {program : String}
    {ending : Ending} {m : Machine} (hprogram : Launch.program (Bytes.ofText name) = .ok program)
    (hrun : Act.inPlace (evaluate Launch.depth) (2 * args.length + 4) program (Bytes.ofText name)
      (args.map Bytes.ofText) Launch.environment (Launch.machine (Bytes.ofText name)) =
        .ok ending m) :
    launch name args = .ok ⟨Bytes.toList (m.world.written 1), ending⟩ := by
  unfold launch
  rw [← List.length_map Bytes.ofText] at hrun
  simp only [hprogram, hrun]

/-- **What `printf` prints with a literal format**, whatever other arguments it gets. -/
theorem launch_printf (s : List Char) (args : List (List Char)) :
    launch "printf".toList (Format.literal s :: args) = .ok ⟨Utf8.encode s, .exited 0⟩ := by
  obtain ⟨m, hrun, hwritten⟩ := inPlace_printf (evaluate Launch.depth)
    (2 * (Format.literal s :: args).length + 3) (Bytes.ofText "printf".toList) (Bytes.ofText s)
    (args.map Bytes.ofText) Launch.environment
    (show (Launch.machine _).shell.channels.lookup 1 = some 1 from rfl) (hasCollector_machine _)
  rw [← Format.ofText_literal, ← List.map_cons] at hrun
  have hstart : (Launch.machine (Bytes.ofText "printf".toList)).world.written 1 = [] :=
    World.collected_of_pairwise .nil
  rw [launch_of_inPlace program_printf hrun, hwritten, hstart, List.nil_append,
    Bytes.toList_ofText]

/-! ## Endings -/

namespace Act

theorem ExitsInByte.of_bind {α : Type} {x : Act α} {f : α → Act Ending}
    (h : ∀ a, ExitsInByte (f a)) : ExitsInByte (x >>= f) where
  exited_lt hrun := by
    obtain ⟨a, m₁, -, hrun⟩ := bind_eq_ok.1 hrun
    exact (h a).exited_lt hrun

theorem exitsInByte_throw (stop : Stop) : ExitsInByte (throw stop) where
  exited_lt h := by cases h

theorem exitsInByte_exited {status : Nat} (hlt : status < 256) :
    ExitsInByte (pure (.exited status)) where
  exited_lt h := by cases h; exact hlt

theorem exitsInByte_become (run : Runner) (name : Bytes) (args : List Bytes)
    (environment : List (Bytes × Bytes)) : ExitsInByte (become run name args environment) :=
  .of_bind fun _ => .of_bind fun outcome => (settles_finish run outcome).toExitsInByte

/-- Programs end like this, and so do those that are started in another environment. -/
theorem exitsInByte_inPlace (run : Runner) (fuel : Nat) :
    (∀ program name args environment,
      ExitsInByte (inPlace run fuel program name args environment)) ∧
    ∀ environment args, ExitsInByte (inPlace.env run fuel environment args) := by
  induction fuel with
  | zero => exact ⟨fun _ _ _ _ => exitsInByte_throw _, fun _ _ => exitsInByte_throw _⟩
  | succ fuel ih =>
    constructor
    · intro program name args environment
      unfold inPlace
      refine .of_bind fun _ => ?_
      split
      · exact exitsInByte_become run name args environment
      split
      · exact ih.2 environment args
      refine .of_bind fun outcome => ?_
      split
      · exact (settles_ofStatus _).toExitsInByte
      · exact (settles_killed _).toExitsInByte
      · exact exitsInByte_throw _
      · exact .of_bind fun _ => (settles_ofStatus _).toExitsInByte
    · intro environment args
      unfold inPlace.env
      split
      · refine .of_bind fun _ => .of_bind fun flushed => ?_
        split
        · exact exitsInByte_exited (by decide)
        · exact .of_bind fun _ => .of_bind fun _ => exitsInByte_exited (by decide)
      split
      · exact ih.2 _ _
      split
      · exact ih.2 _ _
      split
      · exact ih.2 _ _
      refine .of_bind fun found => ?_
      split
      · exact ih.1 _ _ _ _
      · dsimp only
        refine .of_bind fun _ => exitsInByte_exited ?_
        split <;> simp

end Act

/-- **A program that exits does so with a status of eight bits**, whatever it runs. -/
theorem exited_lt_of_launch {name : List Char} {args : List (List Char)} {written : List UInt8}
    {status : Nat} (h : launch name args = .ok ⟨written, .exited status⟩) : status < 256 := by
  unfold launch at h
  dsimp only at h
  split at h
  · cases h
  · split at h
    · next hrun =>
      cases h
      exact ((Act.exitsInByte_inPlace _ _).1 _ _ _ _).exited_lt hrun
    · cases h
      decide

end StepScript.Shell

namespace StepScript

open Text

/-! ## Replies -/

namespace Verdict

/-- A written verdict is one line without control characters. -/
theorem le_of_mem_toText {v : Verdict} {c : Char} (h : c ∈ v.toText) : 32 ≤ c.toNat := by
  have hmember : ∀ (key : String) (value : List Char), (∀ d ∈ value, 32 ≤ d.toNat) →
      ∀ d ∈ Json.writeMember key value, 32 ≤ d.toNat := by
    intro key value hvalue d hd
    rw [Json.writeMember, List.mem_append, List.mem_cons] at hd
    obtain hd | rfl | hd := hd
    · exact Json.le_of_mem_write hd
    · decide
    · exact hvalue d hd
  have hword : (if v.success then "true".toList else "false".toList).all
      (fun d => 32 ≤ d.toNat) = true := by
    split <;> rfl
  rw [toText, List.mem_append, List.mem_append, List.mem_cons, List.mem_singleton] at h
  obtain ((rfl | h) | h) | rfl := h
  · decide
  · exact hmember _ _ (fun d hd => of_decide_eq_true (List.all_eq_true.1 hword d hd)) c h
  · split at h
    · obtain rfl | h := List.mem_cons.1 h
      · decide
      · exact hmember _ _ (fun _ => Json.le_of_mem_write) c h
    · cases h
  · decide

theorem trim_toText (v : Verdict) : trim v.toText = v.toText := by
  rw [trim_eq_self_iff]
  constructor
  · intro c h
    cases h
    rfl
  · intro c h
    rw [toText, List.getLast?_concat] at h
    cases h
    rfl

end Verdict

namespace ProcessDevice

/-- A verdict is found in what a program wrote, with blanks around it. -/
theorem verdictOf_encode_toText (v : Verdict) {before after : List Char}
    (hbefore : allBlank before = true) (hafter : allBlank after = true) :
    verdictOf (Utf8.encode (before ++ v.toText ++ after)) = .ok v := by
  have htrim : trim (before ++ v.toText ++ after) = v.toText := by
    rw [trim_blank_append_blank _ hbefore hafter, Verdict.trim_toText]
  rw [verdictOf, Utf8.decodeLossy_encode, htrim, Verdict.ofText?_toText]

theorem dispatch_of_launch {d : ProcessDevice} {target : Target} {line : List Char}
    {written : List UInt8} {ending : Shell.Ending}
    (hzero : (d.program :: d.lineArgs target line).any (·.contains '\x00') = false)
    (h : Shell.launch d.program (d.lineArgs target line) = .ok ⟨written, ending⟩) :
    d.dispatch target line = verdictOf written := by
  simp only [dispatch, launch, hzero, h, Bool.false_eq_true, if_false]

/-- **A device behind `printf` replies with the verdict that it was given, to every line.** -/
theorem dispatch_printf (v : Verdict) {target : Target} {line : List Char}
    (hproject : '\x00' ∉ target.project) (hdevice : '\x00' ∉ target.device)
    (hline : '\x00' ∉ line) :
    dispatch ⟨"printf".toList, [Shell.Format.literal v.toText], []⟩ target line = .ok v := by
  have hverdict : verdictOf (Utf8.encode v.toText) = .ok v := by
    simpa using verdictOf_encode_toText v allBlank_nil allBlank_nil
  have hzero : '\x00' ∉ Shell.Format.literal v.toText := fun h =>
    absurd (Verdict.le_of_mem_toText (Shell.Format.mem_of_mem_literal h)) (by decide)
  rw [← hverdict]
  apply dispatch_of_launch (d := ⟨"printf".toList, [Shell.Format.literal v.toText], []⟩)
  · simp [lineArgs, hproject, hdevice, hline, hzero]
  · exact Shell.launch_printf v.toText _

end ProcessDevice

end StepScript
