import StepScript.Proofs.BufferActions

/-!
# Files and their line endings

A file is read by giving all its lines the normal ending, and written by giving them the ending that
was found in it. Reading is one pass over the text here; it does the same as two replacements of the
whole text, first of each carriage return with the line feed behind it, then of each carriage return
that is left.

What is read never holds a carriage return, and is read again from the file, whichever ending it was
written with. The file itself comes back exactly if all its lines end alike: it holds no carriage
return at all, or it holds carriage returns and line feeds in pairs only.

Main statements:

* `LineEnding.normalize_eq_replaceAll`, `LineEnding.toCrlf_eq_replaceAll`,
  `LineEnding.detect_eq_crlf_iff` — endings as replacements of the whole text;
* `LineEnding.apply_detect_normalize_eq_iff` — which texts are written as they were read;
* `LineEnding.roundTrip` — what becomes of a text that is read, and of its file when it is saved.
-/

set_option autoImplicit false

namespace StepScript

/-! ## Replacements -/

namespace Text

/-- A text in which every occurrence of `old` is replaced by `new`, where the first `skip` characters
belong to an occurrence that was replaced already. -/
def replaceFrom (old new : List Char) : Nat → List Char → List Char
  | _, [] => []
  | skip + 1, _ :: s => replaceFrom old new skip s
  | 0, c :: s =>
    if old <+: c :: s then new ++ replaceFrom old new (old.length - 1) s
    else c :: replaceFrom old new 0 s

/-- A text in which every occurrence of `old` is replaced by `new`. The occurrences are found from
the left and do not overlap. -/
def replaceAll (old new s : List Char) : List Char :=
  replaceFrom old new 0 s

variable {old new s : List Char} {c : Char}

theorem replaceAll_cons_of_not_prefix (h : ¬ old <+: c :: s) :
    replaceAll old new (c :: s) = c :: replaceAll old new s :=
  if_neg h

/-- A single character is replaced wherever it stands. -/
theorem replaceAll_singleton_cons (a : Char) (new : List Char) (c : Char) (s : List Char) :
    replaceAll [a] new (c :: s) =
      if c = a then new ++ replaceAll [a] new s else c :: replaceAll [a] new s := by
  by_cases h : c = a
  · subst h
    rw [if_pos rfl]
    exact if_pos (List.cons_prefix_cons.2 ⟨rfl, List.nil_prefix⟩)
  · rw [if_neg h]
    exact replaceAll_cons_of_not_prefix fun hp => h (List.cons_prefix_cons.1 hp).1.symm

/-- Two characters are replaced where the second one stands right behind the first. -/
theorem replaceAll_pair_cons_cons (a b : Char) (new s : List Char) :
    replaceAll [a, b] new (a :: b :: s) = new ++ replaceAll [a, b] new s :=
  if_pos ⟨s, rfl⟩

end Text

open Text

namespace LineEnding

variable {s : List Char}

/-- The first pass takes the carriage return off every pair. -/
theorem replaceAll_crlf_cons_of_ne {c : Char} (h : ∀ t, c :: s ≠ '\r' :: '\n' :: t) :
    replaceAll ['\r', '\n'] ['\n'] (c :: s) = c :: replaceAll ['\r', '\n'] ['\n'] s := by
  refine replaceAll_cons_of_not_prefix ?_
  rintro ⟨t, ht⟩
  exact h t ht.symm

/-- **Reading in two passes.** First every pair loses its carriage return, then every carriage return
that is left becomes a line feed. -/
theorem normalize_eq_replaceAll (s : List Char) :
    normalize s = replaceAll ['\r'] ['\n'] (replaceAll ['\r', '\n'] ['\n'] s) := by
  fun_induction normalize s with
  | case1 s ih =>
      rw [replaceAll_pair_cons_cons, List.singleton_append, replaceAll_singleton_cons,
        if_neg (by decide), ih]
  | case2 s hlone ih =>
      rw [replaceAll_crlf_cons_of_ne fun t ht => hlone t (List.cons.inj ht).2,
        replaceAll_singleton_cons, if_pos rfl, ih]
      rfl
  | case3 c s _ hc ih =>
      rw [replaceAll_crlf_cons_of_ne fun t ht => hc (List.cons.inj ht).1,
        replaceAll_singleton_cons, if_neg hc, ih]
  | case4 => rfl

/-- Writing replaces every line feed by a pair. -/
theorem toCrlf_eq_replaceAll (s : List Char) : toCrlf s = replaceAll ['\n'] ['\r', '\n'] s := by
  induction s with
  | nil => rfl
  | cons c s ih =>
      rw [toCrlf, replaceAll_singleton_cons, ih]
      rfl

/-- The ending is CRLF exactly if a pair stands somewhere in the text. -/
theorem detect_eq_crlf_iff : detect s = .crlf ↔ ['\r', '\n'] <:+: s := by
  fun_induction detect s with
  | case1 s => exact iff_of_true rfl ⟨[], s, rfl⟩
  | case2 c s hne ih =>
      rw [ih, List.infix_cons_iff]
      refine (or_iff_right ?_).symm
      rintro ⟨t, ht⟩
      obtain ⟨rfl, rfl⟩ := List.cons.inj ht
      exact hne t rfl rfl
  | case3 => simp

theorem detect_eq_lf_iff : detect s = .lf ↔ ¬ ['\r', '\n'] <:+: s := by
  rw [← detect_eq_crlf_iff]
  cases detect s <;> simp

/-! ## Texts whose lines end alike -/

/-- A text in which carriage returns and line feeds stand in **pairs** only. -/
structure Paired (s : List Char) : Prop where
  /-- Every line feed stands behind a carriage return. -/
  behind : ∀ i, s[i]? = some '\n' → ∃ j, i = j + 1 ∧ s[j]? = some '\r'
  /-- Every carriage return stands in front of a line feed. -/
  inFront : ∀ i, s[i]? = some '\r' → s[i + 1]? = some '\n'

theorem paired_nil : Paired [] :=
  ⟨fun _ h => by simp at h, fun _ h => by simp at h⟩

/-- A line feed at the start of a text stands behind nothing. -/
theorem not_paired_lf_cons (s : List Char) : ¬ Paired ('\n' :: s) := by
  intro h
  obtain ⟨j, hj, -⟩ := h.behind 0 rfl
  cases hj

/-- A carriage return at the start of a paired text has its line feed behind it. -/
theorem Paired.exists_cons (h : Paired ('\r' :: s)) : ∃ t, s = '\n' :: t := by
  have hnext := h.inFront 0 rfl
  cases s with
  | nil => cases hnext
  | cons c s => exact ⟨s, by rw [Option.some.inj hnext]⟩

theorem paired_crlf_cons_cons : Paired ('\r' :: '\n' :: s) ↔ Paired s := by
  constructor
  · intro h
    refine ⟨fun i hi => ?_, fun i hi => h.inFront (i + 2) hi⟩
    obtain ⟨j, hj, hreturn⟩ := h.behind (i + 2) hi
    obtain rfl : j = i + 1 := by omega
    cases i with
    | zero => simp at hreturn
    | succ i => exact ⟨i, rfl, hreturn⟩
  · intro h
    refine ⟨fun i hi => ?_, fun i hi => ?_⟩
    · match i with
      | 0 => simp at hi
      | 1 => exact ⟨0, rfl, rfl⟩
      | i + 2 =>
          obtain ⟨j, rfl, hreturn⟩ := h.behind i hi
          exact ⟨j + 2, rfl, hreturn⟩
    · match i with
      | 0 => rfl
      | 1 => simp at hi
      | i + 2 => exact h.inFront i hi

theorem paired_cons_iff {c : Char} (hr : c ≠ '\r') (hn : c ≠ '\n') :
    Paired (c :: s) ↔ Paired s := by
  constructor
  · intro h
    refine ⟨fun i hi => ?_, fun i hi => h.inFront (i + 1) hi⟩
    obtain ⟨j, hj, hreturn⟩ := h.behind (i + 1) hi
    obtain rfl : j = i := by omega
    cases j with
    | zero => exact absurd (Option.some.inj hreturn) hr
    | succ j => exact ⟨j, rfl, hreturn⟩
  · intro h
    refine ⟨fun i hi => ?_, fun i hi => ?_⟩
    · cases i with
      | zero => exact absurd (Option.some.inj hi) hn
      | succ i =>
          obtain ⟨j, rfl, hreturn⟩ := h.behind i hi
          exact ⟨j + 1, rfl, hreturn⟩
    · cases i with
      | zero => exact absurd (Option.some.inj hi) hr
      | succ i => exact h.inFront i hi

/-- Pairs come back from the line feeds that they are read as, and nothing else does. -/
theorem toCrlf_normalize_eq_iff (s : List Char) : toCrlf (normalize s) = s ↔ Paired s := by
  fun_induction normalize s with
  | case1 s ih =>
      rw [paired_crlf_cons_cons, ← ih, toCrlf, if_pos rfl]
      simp
  | case2 s hlone ih =>
      refine iff_of_false (fun h => ?_) fun h => ?_
      · rw [toCrlf, if_pos rfl] at h
        exact hlone _ (List.cons.inj h).2.symm
      · obtain ⟨t, rfl⟩ := h.exists_cons
        exact hlone t rfl
  | case3 c s _ hc ih =>
      rw [toCrlf]
      split
      · next hn =>
        subst hn
        exact iff_of_false (by simp) (not_paired_lf_cons s)
      · next hn =>
        rw [paired_cons_iff hc hn, ← ih]
        simp
  | case4 => exact iff_of_true rfl paired_nil

/-- In a text without a pair, carriage returns and line feeds stand in pairs only if there is no
carriage return. -/
theorem Paired.not_mem_of_detect (h : Paired s) (hlf : detect s = .lf) : '\r' ∉ s := by
  intro hmem
  obtain ⟨front, back, rfl⟩ := List.append_of_mem hmem
  have hnext := h.inFront front.length (by simp)
  rw [List.getElem?_append_right (by omega), Nat.add_sub_cancel_left, List.getElem?_cons_succ,
    ← List.head?_eq_getElem?] at hnext
  obtain ⟨back, rfl⟩ := List.head?_eq_some_iff.1 hnext
  exact detect_eq_lf_iff.1 hlf ⟨front, back, by simp⟩

/-- **A text is written as it was read** exactly if it holds no carriage return, or holds carriage
returns and line feeds in pairs only. -/
theorem apply_detect_normalize_eq_iff (raw : List Char) :
    (detect raw).apply (normalize raw) = raw ↔ '\r' ∉ raw ∨ Paired raw := by
  cases hd : detect raw with
  | lf =>
      have hiff : normalize raw = raw ↔ '\r' ∉ raw :=
        ⟨fun h => h ▸ not_mem_normalize raw, normalize_of_not_mem⟩
      exact hiff.trans ⟨Or.inl, fun h => h.elim id fun hp => hp.not_mem_of_detect hd⟩
  | crlf =>
      -- the pair that was found has a carriage return
      have hmem : '\r' ∈ raw := (detect_eq_crlf_iff.1 hd).subset List.mem_cons_self
      exact (toCrlf_normalize_eq_iff raw).trans
        ⟨Or.inr, fun h => h.resolve_left fun hnot => hnot hmem⟩

theorem toCrlf_of_not_mem (h : '\n' ∉ s) : toCrlf s = s := by
  induction s with
  | nil => rfl
  | cons c s ih =>
      rw [List.mem_cons, not_or] at h
      rw [toCrlf, if_neg (Ne.symm h.1), ih h.2]

theorem toCrlf_append (s t : List Char) : toCrlf (s ++ t) = toCrlf s ++ toCrlf t := by
  induction s with
  | nil => rfl
  | cons c s ih =>
      rw [List.cons_append, toCrlf, toCrlf, ih]
      split <;> rfl

/-- A text that is written with CRLF shows it as soon as it has two lines. -/
theorem detect_toCrlf_eq_crlf_iff (h : '\r' ∉ s) : detect (toCrlf s) = .crlf ↔ '\n' ∈ s := by
  rw [detect_eq_crlf_iff]
  constructor
  · intro hpair
    by_cases hn : '\n' ∈ s
    · exact hn
    · rw [toCrlf_of_not_mem hn] at hpair
      exact absurd (hpair.subset List.mem_cons_self) h
  · intro hn
    obtain ⟨front, back, rfl⟩ := List.append_of_mem hn
    exact ⟨toCrlf front, toCrlf back, by rw [toCrlf_append, toCrlf, if_pos rfl]; simp⟩

end LineEnding

/-! ## Files -/

/-- A file that can be read can be written. -/
theorem Disk.exists_write_of_read {d : Disk} {p : FilePath} {raw : List Char}
    (h : d.read p = .ok raw) (s : List Char) : ∃ d', d.write p s = .ok d' := by
  unfold read at h
  unfold write writeContent
  cases hplace : d.place p with
  | error fault => simp [hplace] at h
  | ok l =>
      rw [hplace] at h
      dsimp only at h ⊢
      split at h
      · cases h
      · cases h
      · next content hlookup =>
        split at h
        · cases h
        · next hslash => exact ⟨_, if_neg (by simp [hslash, hlookup])⟩

/-- A buffer whose file can be read is saved by force, and the file then holds its text with the
ending of the buffer. -/
theorem Buffer.read_forceSave {b : Buffer} {d : Disk} {raw : List Char}
    (h : d.read b.path = .ok raw) :
    (b.forceSave d).outcome = .ok () ∧
      (b.forceSave d).disk.read b.path = .ok (b.ending.apply b.content) := by
  obtain ⟨d', hwrite⟩ := Disk.exists_write_of_read h b.stopTimer.snapshot.text
  have hsave : b.forceSave d = b.stopTimer.finish d b.stopTimer.snapshot := by
    rw [forceSave, write_eq, Bool.or_true, if_pos rfl]
  rcases b.stopTimer.finish_cases d b.stopTimer.snapshot with
    ⟨d'', _, hok, hfinish⟩ | ⟨fault, _, hfault, -⟩
  · rw [hsave, hfinish]
    exact ⟨rfl, Disk.read_write hok⟩
  · cases hwrite.symm.trans hfault

/-! ## Round trips -/

namespace LineEnding

/-- What is promised of a file with the text `raw`. -/
structure RoundTrip (raw : List Char) : Prop where
  /-- The text is read with two replacements, one after the other. -/
  read_eq : normalize raw = replaceAll ['\r'] ['\n'] (replaceAll ['\r', '\n'] ['\n'] raw)
  /-- Its ending is CRLF exactly if a carriage return stands in front of a line feed. -/
  found_iff : detect raw = .crlf ↔ ['\r', '\n'] <:+: raw
  /-- What is read has no carriage return. -/
  normal : '\r' ∉ normalize raw
  /-- It is written with a replacement of every line feed. -/
  written_eq : apply .crlf (normalize raw) = replaceAll ['\n'] ['\r', '\n'] (normalize raw)
  /-- It is read again, whichever ending it was written with. -/
  readAgain : ∀ ending : LineEnding, normalize (ending.apply (normalize raw)) = normalize raw
  /-- It is written as it was read exactly if it has no carriage returns, or pairs only. -/
  same_iff : (detect raw).apply (normalize raw) = raw ↔ '\r' ∉ raw ∨ Paired raw
  /-- In that case, and in no other, the file is the same after it is loaded and saved by force,
  which always succeeds. -/
  saved : ∀ options file (d : Disk), d.read (FilePath.ofText file) = .ok raw →
    ∃ b, Buffer.load options file d = .ok b ∧ b.content = normalize raw ∧
      (b.forceSave d).outcome = .ok () ∧
      ((b.forceSave d).disk.read (FilePath.ofText file) = .ok raw ↔ '\r' ∉ raw ∨ Paired raw)
  /-- Its lines are seen to end with CRLF, once written so, exactly if there is more than one. -/
  foundAgain_iff : detect (apply .crlf (normalize raw)) = .crlf ↔ '\n' ∈ normalize raw

/-- **Line endings round-trip.** -/
theorem roundTrip (raw : List Char) : RoundTrip raw where
  read_eq := normalize_eq_replaceAll raw
  found_iff := detect_eq_crlf_iff
  normal := not_mem_normalize raw
  written_eq := toCrlf_eq_replaceAll (normalize raw)
  readAgain ending := normalize_apply ending (not_mem_normalize raw)
  same_iff := apply_detect_normalize_eq_iff raw
  saved options file d h := by
    let b := Buffer.create options file raw
    have hload : Buffer.load options file d = .ok b := by
      rw [Buffer.load, Buffer.textOf, h]
      rfl
    have hread : d.read b.path = .ok raw := h
    obtain ⟨hok, htext⟩ := Buffer.read_forceSave hread
    have hfile : (b.forceSave d).disk.read (FilePath.ofText file) =
        .ok ((detect raw).apply (normalize raw)) := htext
    refine ⟨b, hload, rfl, hok, ?_⟩
    rw [hfile, Except.ok.injEq]
    exact apply_detect_normalize_eq_iff raw
  foundAgain_iff := detect_toCrlf_eq_crlf_iff (not_mem_normalize raw)

/-- A file with both endings and a lone carriage return gets pairs throughout. -/
example :
    let raw := "a\r\nb\r\r\nc\n".toList
    normalize raw = "a\nb\n\nc\n".toList ∧
      (detect raw).apply (normalize raw) = "a\r\nb\r\n\r\nc\r\n".toList := by
  decide

end LineEnding

end StepScript
