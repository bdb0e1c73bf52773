import StepScript.Text.Cut
import StepScript.Text.Size
import StepScript.Text.Utf8

/-!
# Slices of texts

A text can be cut at a byte only where a character ends, and not beyond its end. A cut anywhere else
fails, and so does a subtraction that would go below zero; a computation with offsets in which no cut
fails has not lost its place.

Main statements:

* `splitAtByte?_eq_some` — a cut succeeds only between two parts of a text;
* `sliceFrom?_eq_some`, `slice?_eq_some` — which slices there are;
* `length_takeWhile_isDigitByte` — the digits that a text starts with, counted in bytes.
-/

set_option autoImplicit false

namespace StepScript.Text

/-- The difference of two offsets, unless it is below zero. -/
def sub? (m n : Nat) : Option Nat :=
  if n ≤ m then some (m - n) else none

/-- A text cut at a byte. There is no cut within a character or beyond the end. -/
def splitAtByte? : Nat → List Char → Option (List Char × List Char)
  | 0, s => some ([], s)
  | _ + 1, [] => none
  | n + 1, c :: s =>
    if c.utf8Size ≤ n + 1 then
      (splitAtByte? (n + 1 - c.utf8Size) s).map fun (front, back) => (c :: front, back)
    else none

def sliceFrom? (s : List Char) (start : Nat) : Option (List Char) :=
  (splitAtByte? start s).map Prod.snd

def slice? (s : List Char) (start stop : Nat) : Option (List Char) :=
  (sub? stop start).bind fun size =>
    (sliceFrom? s start).bind fun rest => (splitAtByte? size rest).map Prod.fst

/-! ## Laws -/

theorem byteSize_pos {s : List Char} (h : s ≠ []) : 0 < byteSize s :=
  Nat.pos_of_ne_zero fun hs => h (byteSize_eq_zero.1 hs)

@[simp] theorem sub?_add (m n : Nat) : sub? (m + n) m = some n := by
  rw [sub?, if_pos (Nat.le_add_right m n), Nat.add_sub_cancel_left]

@[simp] theorem splitAtByte?_append (front back : List Char) :
    splitAtByte? (byteSize front) (front ++ back) = some (front, back) := by
  induction front with
  | nil => rw [byteSize_nil, splitAtByte?, List.nil_append]
  | cons c front ih =>
      obtain ⟨n, hn⟩ := Nat.exists_eq_add_one_of_ne_zero
        (Nat.ne_of_gt (byteSize_pos (List.cons_ne_nil c front)))
      have hc : n + 1 - c.utf8Size = byteSize front := by
        rw [← hn, byteSize]
        omega
      have hle : c.utf8Size ≤ n + 1 := by
        rw [← hn, byteSize]
        omega
      rw [hn, List.cons_append, splitAtByte?, if_pos hle, hc, ih]
      rfl

/-- A cut succeeds only between two parts of a text. -/
theorem splitAtByte?_eq_some {n : Nat} {s front back : List Char} :
    splitAtByte? n s = some (front, back) ↔ s = front ++ back ∧ byteSize front = n := by
  constructor
  · intro h
    induction s generalizing n front with
    | nil =>
        cases n with
        | zero =>
            obtain ⟨rfl, rfl⟩ := Prod.ext_iff.1 (Option.some.inj h)
            exact ⟨rfl, rfl⟩
        | succ n => simp [splitAtByte?] at h
    | cons c s ih =>
        cases n with
        | zero =>
            obtain ⟨rfl, rfl⟩ := Prod.ext_iff.1 (Option.some.inj h)
            exact ⟨rfl, rfl⟩
        | succ n =>
            rw [splitAtByte?] at h
            split at h
            · next hc =>
              obtain ⟨⟨front', back'⟩, hcut, heq⟩ := Option.map_eq_some_iff.1 h
              obtain ⟨rfl, rfl⟩ := Prod.ext_iff.1 heq
              obtain ⟨rfl, hsize⟩ := ih hcut
              refine ⟨rfl, ?_⟩
              rw [byteSize, hsize]
              omega
            · cases h
  · rintro ⟨rfl, rfl⟩
    exact splitAtByte?_append front back

/-- A text from a byte on is what stands behind as many bytes. -/
theorem sliceFrom?_eq_some {s back : List Char} {start : Nat} :
    sliceFrom? s start = some back ↔ ∃ front, s = front ++ back ∧ byteSize front = start := by
  constructor
  · intro h
    obtain ⟨⟨front, back'⟩, hcut, rfl⟩ := Option.map_eq_some_iff.1 h
    exact ⟨front, splitAtByte?_eq_some.1 hcut⟩
  · rintro ⟨front, rfl, rfl⟩
    rw [sliceFrom?, splitAtByte?_append]
    rfl

@[simp] theorem sliceFrom?_zero (s : List Char) : sliceFrom? s 0 = some s :=
  sliceFrom?_eq_some.2 ⟨[], rfl, rfl⟩

section

variable {s text back : List Char} {start : Nat}

/-- Behind a part of a text, the text goes on. -/
theorem sliceFrom?_add (h : sliceFrom? s start = some (text ++ back)) :
    sliceFrom? s (start + byteSize text) = some back := by
  obtain ⟨front, rfl, rfl⟩ := sliceFrom?_eq_some.1 h
  exact sliceFrom?_eq_some.2 ⟨front ++ text, by simp, by simp⟩

/-- Behind a character of a text, the text goes on. -/
theorem sliceFrom?_add_utf8Size {c : Char} (h : sliceFrom? s start = some (c :: back)) :
    sliceFrom? s (start + c.utf8Size) = some back := by
  have htext : sliceFrom? s start = some ([c] ++ back) := h
  exact sliceFrom?_add htext

theorem slice?_of_sliceFrom? (h : sliceFrom? s start = some (text ++ back)) :
    slice? s start (start + byteSize text) = some text := by
  rw [slice?, sub?_add, Option.bind_some, h, Option.bind_some, splitAtByte?_append]
  rfl

/-- What stands behind a byte ends where the text ends. -/
theorem byteSize_of_sliceFrom? (h : sliceFrom? s start = some back) :
    byteSize s = start + byteSize back := by
  obtain ⟨front, rfl, rfl⟩ := sliceFrom?_eq_some.1 h
  exact byteSize_append front back

end

/-- A slice is a part of a text, behind as many bytes as its start says. -/
theorem slice?_eq_some {s text : List Char} {start stop : Nat} :
    slice? s start stop = some text ↔
      ∃ back, sliceFrom? s start = some (text ++ back) ∧ start + byteSize text = stop := by
  constructor
  · intro h
    obtain ⟨size, hsize, h⟩ := Option.bind_eq_some_iff.1 h
    obtain ⟨rest, hrest, h⟩ := Option.bind_eq_some_iff.1 h
    obtain ⟨⟨text', back⟩, htext, rfl⟩ := Option.map_eq_some_iff.1 h
    obtain ⟨rfl, rfl⟩ := splitAtByte?_eq_some.1 htext
    refine ⟨back, hrest, ?_⟩
    rw [sub?] at hsize
    split at hsize
    · have := Option.some.inj hsize
      show start + byteSize text' = stop
      omega
    · cases hsize
  · rintro ⟨back, hback, rfl⟩
    exact slice?_of_sliceFrom? hback

/-- A text starts with its first part. -/
@[simp] theorem slice?_append (front back : List Char) :
    slice? (front ++ back) 0 (byteSize front) = some front :=
  slice?_eq_some.2 ⟨back, sliceFrom?_zero _, Nat.zero_add _⟩

/-! ## Digits -/

def isDigitByte (b : UInt8) : Bool :=
  decide (48 ≤ b.toNat) && decide (b.toNat ≤ 57)

theorem isDigit_iff {c : Char} : c.isDigit = true ↔ 48 ≤ c.val.toNat ∧ c.val.toNat ≤ 57 := by
  simp [Char.isDigit, UInt32.le_iff_toNat_le]

theorem utf8Size_of_isDigit {c : Char} (h : c.isDigit = true) : c.utf8Size = 1 := by
  rw [Char.utf8Size_eq_one_iff, UInt32.le_iff_toNat_le]
  have := isDigit_iff.1 h
  show c.val.toNat ≤ 127
  omega

/-- The first byte of a character is the code of a digit only if the character is that digit. -/
theorem exists_utf8EncodeChar (c : Char) :
    ∃ b bytes, String.utf8EncodeChar c = b :: bytes ∧ isDigitByte b = c.isDigit := by
  have hdigit : ∀ n : Nat, 127 < c.val.toNat → 128 ≤ n → n < 256 →
      isDigitByte (UInt8.ofNat n) = c.isDigit := by
    intro n hc hlow hhigh
    have hbyte : isDigitByte (UInt8.ofNat n) = false := by
      simp only [isDigitByte, UInt8.toNat_ofNat', Nat.mod_eq_of_lt hhigh]
      simp
      omega
    rw [hbyte, eq_comm, ← Bool.not_eq_true, isDigit_iff]
    omega
  unfold String.utf8EncodeChar
  dsimp only
  split
  · next hc =>
    refine ⟨_, _, rfl, ?_⟩
    have hbyte : (UInt8.ofNat c.val.toNat).toNat = c.val.toNat := by
      rw [UInt8.toNat_ofNat']
      exact Nat.mod_eq_of_lt (by omega)
    rw [Bool.eq_iff_iff, isDigit_iff, isDigitByte, hbyte]
    simp
  · next hc =>
    split
    · exact ⟨_, _, rfl, hdigit _ (by omega) (by omega) (by omega)⟩
    · split
      · exact ⟨_, _, rfl, hdigit _ (by omega) (by omega) (by omega)⟩
      · exact ⟨_, _, rfl, hdigit _ (by omega) (by omega) (by omega)⟩

/-- The digits that a text starts with take as many bytes as codes of digits come first. -/
theorem length_takeWhile_isDigitByte (s : List Char) :
    ((Utf8.encode s).takeWhile isDigitByte).length = byteSize (s.takeWhile Char.isDigit) := by
  induction s with
  | nil => rfl
  | cons c s ih =>
      obtain ⟨b, bytes, hc, hb⟩ := exists_utf8EncodeChar c
      have hencode : Utf8.encode (c :: s) = b :: (bytes ++ Utf8.encode s) := by
        rw [Utf8.encode, List.flatMap_cons, hc]
        rfl
      rw [hencode]
      cases hdigit : c.isDigit with
      | false =>
          rw [List.takeWhile_cons_of_neg (by simp [hb, hdigit]),
            List.takeWhile_cons_of_neg (by simp [hdigit])]
          rfl
      | true =>
          have hsize := utf8Size_of_isDigit hdigit
          -- a digit is one byte, so that no byte of it is left over
          have hbytes : bytes = [] := by
            have hlength := String.length_utf8EncodeChar c
            rw [hc, hsize] at hlength
            exact List.length_eq_zero_iff.1 (Nat.succ.inj hlength)
          rw [hbytes, List.takeWhile_cons_of_pos (by simp [hb, hdigit]),
            List.takeWhile_cons_of_pos hdigit, List.length_cons, List.nil_append, ih, byteSize,
            hsize, Nat.add_comm]

end StepScript.Text
