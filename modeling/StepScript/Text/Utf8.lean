/-!
# UTF-8

Bytes are read as characters from left to right. Where they are no character, the longest run that
could have started one is a **fault**. A strict reading refuses a text with a fault; a lossy reading
puts a replacement character in its place.

`Spells` says which bytes make up which character, without a word on how they are read.

Main statement: `decode?_eq_some_iff` — the strict reading is the inverse of writing. Where there is
no fault, the lossy one agrees with it (`decodeLossy_of_decode?`).
-/

set_option autoImplicit false

namespace StepScript.Text.Utf8

/-- The characters that bytes are read as: each one, or a fault, with the number of its bytes behind
the first. -/
structure Unit where
  /-- The character, unless the bytes are a fault. -/
  char : Option Char
  /-- How many bytes follow the first one. -/
  more : Nat

def fault (more : Nat) : Unit := ⟨none, more⟩

def isTail (b : UInt8) : Bool :=
  0x80 ≤ b && b ≤ 0xBF

/-- The six bits that a byte adds to a character. -/
def tailBits (b : UInt8) : Nat :=
  b.toNat % 0x40

/-- The bounds of the second byte of a character that starts with `b`. They leave out the forms that
are too long, the surrogates, and what lies beyond the last code point. -/
def secondBounds (b : UInt8) : UInt8 × UInt8 :=
  if b = 0xE0 then (0xA0, 0xBF)
  else if b = 0xED then (0x80, 0x9F)
  else if b = 0xF0 then (0x90, 0xBF)
  else if b = 0xF4 then (0x80, 0x8F)
  else (0x80, 0xBF)

/-- Whether a byte may follow the first byte `b` of a character. -/
def isSecond (b c : UInt8) : Bool :=
  (secondBounds b).1 ≤ c && c ≤ (secondBounds b).2

/-- What bytes are read as if a character of two bytes starts with `b`. -/
def pair (b : UInt8) : List UInt8 → Unit
  | c :: _ =>
    if isTail c then ⟨some (Char.ofNat (b.toNat % 0x20 * 0x40 + tailBits c)), 1⟩ else fault 0
  | [] => fault 0

/-- What bytes are read as if a character of three bytes starts with `b`. -/
def triple (b : UInt8) : List UInt8 → Unit
  | c :: d :: _ =>
    if !isSecond b c then fault 0
    else if !isTail d then fault 1
    else ⟨some (Char.ofNat ((b.toNat % 0x10 * 0x40 + tailBits c) * 0x40 + tailBits d)), 2⟩
  | [c] => fault (if isSecond b c then 1 else 0)
  | [] => fault 0

/-- What bytes are read as if a character of four bytes starts with `b`. -/
def quadruple (b : UInt8) : List UInt8 → Unit
  | c :: d :: e :: _ =>
    if !isSecond b c then fault 0
    else if !isTail d then fault 1
    else if !isTail e then fault 2
    else
      ⟨some (Char.ofNat
        (((b.toNat % 8 * 0x40 + tailBits c) * 0x40 + tailBits d) * 0x40 + tailBits e)), 3⟩
  | [c, d] => fault (if !isSecond b c then 0 else if isTail d then 2 else 1)
  | [c] => fault (if isSecond b c then 1 else 0)
  | [] => fault 0

/-- What bytes that start with `b` are read as first. -/
def first (b : UInt8) (rest : List UInt8) : Unit :=
  if b < 0x80 then ⟨some (Char.ofNat b.toNat), 0⟩
  else if b < 0xC2 then fault 0
  else if b < 0xE0 then pair b rest
  else if b < 0xF0 then triple b rest
  else if b < 0xF5 then quadruple b rest
  else fault 0

/-- What bytes are read as, piece by piece. -/
def units : List UInt8 → List Unit
  | [] => []
  | b :: rest => first b rest :: units (rest.drop (first b rest).more)
termination_by bytes => bytes.length
decreasing_by
  rw [List.length_drop, List.length_cons]
  omega

def decode? (bytes : List UInt8) : Option (List Char) :=
  (units bytes).mapM (·.char)

/-- The text of some bytes, with a replacement character for every fault. -/
def decodeLossy (bytes : List UInt8) : List Char :=
  (units bytes).map fun u => u.char.getD '\uFFFD'

def encode (s : List Char) : List UInt8 :=
  s.flatMap String.utf8EncodeChar

/-! ## Characters -/

/-- Some bytes make up the character of a number. -/
inductive Spells (n : Nat) : List UInt8 → Prop where
  | one {b : UInt8} : n < 0x80 → b.toNat = n → Spells n [b]
  | two {b c : UInt8} : 0x80 ≤ n → n < 0x800 → b.toNat = 0xC0 + n / 0x40 →
      c.toNat = 0x80 + n % 0x40 → Spells n [b, c]
  | three {b c d : UInt8} : 0x800 ≤ n → n < 0x10000 → b.toNat = 0xE0 + n / 0x1000 →
      c.toNat = 0x80 + n / 0x40 % 0x40 → d.toNat = 0x80 + n % 0x40 → Spells n [b, c, d]
  | four {b c d e : UInt8} : 0x10000 ≤ n → n < 0x110000 → b.toNat = 0xF0 + n / 0x40000 →
      c.toNat = 0x80 + n / 0x1000 % 0x40 → d.toNat = 0x80 + n / 0x40 % 0x40 →
      e.toNat = 0x80 + n % 0x40 → Spells n [b, c, d, e]

theorem Spells.eq {n : Nat} {s t : List UInt8} (hs : Spells n s) (ht : Spells n t) : s = t := by
  cases hs <;> cases ht <;> simp only [List.cons.injEq, ← UInt8.toNat_inj, and_true] <;> omega

/-- Only the first 128 characters are spelled in the bytes below 128, each one in its own. -/
theorem Spells.eq_or_le {n : Nat} {s : List UInt8} (h : Spells n s) :
    (∃ b : UInt8, s = [b] ∧ b.toNat = n) ∨ ∀ b ∈ s, 0x80 ≤ b.toNat := by
  cases h with
  | one _ hb => exact .inl ⟨_, rfl, hb⟩
  | two _ _ hb hc => right; simp; omega
  | three _ _ hb hc hd => right; simp; omega
  | four _ _ hb hc hd he => right; simp; omega

theorem spells_utf8EncodeChar (c : Char) : Spells c.toNat (String.utf8EncodeChar c) := by
  have hvalid : c.val.toNat < 0xD800 ∨ 0xDFFF < c.val.toNat ∧ c.val.toNat < 0x110000 := c.valid
  change Spells c.val.toNat _
  rw [String.utf8EncodeChar]
  generalize c.val.toNat = n at hvalid
  split
  · exact .one (by omega) (UInt8.toNat_ofNat_of_lt' (show n < 256 by omega))
  split
  · exact .two (by omega) (by omega) (by simp; omega) (by simp; omega)
  split
  · exact .three (by omega) (by omega) (by simp; omega) (by simp; omega) (by simp; omega)
  · exact .four (by omega) (by omega) (by simp; omega) (by simp; omega) (by simp; omega)
      (by simp; omega)

theorem toNat_ofNat {n : Nat} (h : n < 0xD800 ∨ 0xDFFF < n ∧ n < 0x110000) :
    (Char.ofNat n).toNat = n := by
  rw [Char.ofNat, dif_pos h]
  rfl

theorem isTail_iff (b : UInt8) : isTail b = true ↔ 0x80 ≤ b.toNat ∧ b.toNat ≤ 0xBF := by
  simp [isTail, UInt8.le_iff_toNat_le]

theorem isSecond_iff (b c : UInt8) :
    isSecond b c = true ↔
      (0x80 ≤ c.toNat ∧ c.toNat ≤ 0xBF) ∧ (b.toNat = 0xE0 → 0xA0 ≤ c.toNat) ∧
        (b.toNat = 0xED → c.toNat ≤ 0x9F) ∧ (b.toNat = 0xF0 → 0x90 ≤ c.toNat) ∧
        (b.toNat = 0xF4 → c.toNat ≤ 0x8F) := by
  simp only [isSecond, secondBounds, ← UInt8.toNat_inj, UInt8.le_iff_toNat_le,
    Bool.and_eq_true, decide_eq_true_eq, UInt8.reduceToNat]
  repeat' split
  all_goals simp; omega

/-! ### From characters to bytes and back -/

/-- Bytes that make up a character are read as it, whatever follows them. -/
theorem first_of_spells {c : Char} {b : UInt8} {tail : List UInt8} (h : Spells c.toNat (b :: tail))
    (rest : List UInt8) : first b (tail ++ rest) = ⟨some c, tail.length⟩ := by
  have hvalid : c.toNat < 0xD800 ∨ 0xDFFF < c.toNat ∧ c.toNat < 0x110000 := c.valid
  have hc : Char.ofNat c.toNat = c := Char.ofNat_toNat c
  generalize c.toNat = n at h hc hvalid
  subst hc
  simp only [first, UInt8.lt_iff_toNat_lt, UInt8.reduceToNat]
  cases h with
  | one h1 hb =>
    rw [if_pos (by omega), hb]
    rfl
  | @two _ d h1 h2 hb hd =>
    have htail : isTail d = true := (isTail_iff d).2 (by omega)
    have hn : b.toNat % 0x20 * 0x40 + tailBits d = n := by rw [tailBits]; omega
    rw [if_neg (by omega), if_neg (by omega), if_pos (by omega)]
    simp [pair, htail, hn]
  | @three _ d e h1 h2 hb hd he =>
    have hsecond : isSecond b d = true := (isSecond_iff b d).2 (by omega)
    have htail : isTail e = true := (isTail_iff e).2 (by omega)
    have hn : (b.toNat % 0x10 * 0x40 + tailBits d) * 0x40 + tailBits e = n := by
      rw [tailBits, tailBits]
      omega
    rw [if_neg (by omega), if_neg (by omega), if_neg (by omega), if_pos (by omega)]
    simp [triple, hsecond, htail, hn]
  | @four _ d e f h1 h2 hb hd he hf =>
    have hsecond : isSecond b d = true := (isSecond_iff b d).2 (by omega)
    have htail : isTail e = true := (isTail_iff e).2 (by omega)
    have hlast : isTail f = true := (isTail_iff f).2 (by omega)
    have hn : ((b.toNat % 8 * 0x40 + tailBits d) * 0x40 + tailBits e) * 0x40 + tailBits f = n := by
      rw [tailBits, tailBits, tailBits]
      omega
    rw [if_neg (by omega), if_neg (by omega), if_neg (by omega), if_neg (by omega),
      if_pos (by omega)]
    simp [quadruple, hsecond, htail, hlast, hn]

theorem spells_of_pair {b : UInt8} {rest : List UInt8} {c : Char} {k : Nat}
    (hlow : 0xC2 ≤ b.toNat) (hhigh : b.toNat < 0xE0) (h : pair b rest = ⟨some c, k⟩) :
    ∃ tail, Spells c.toNat (b :: tail) ∧ rest = tail ++ rest.drop k := by
  unfold pair at h
  split at h
  · next d rest =>
    split at h
    · next hd =>
      rw [isTail_iff] at hd
      obtain ⟨rfl, rfl⟩ := by simpa using h
      refine ⟨[d], ?_, rfl⟩
      rw [tailBits, toNat_ofNat (by omega)]
      exact .two (by omega) (by omega) (by omega) (by omega)
    · simp [fault] at h
  · simp [fault] at h

theorem spells_of_triple {b : UInt8} {rest : List UInt8} {c : Char} {k : Nat}
    (hlow : 0xE0 ≤ b.toNat) (hhigh : b.toNat < 0xF0) (h : triple b rest = ⟨some c, k⟩) :
    ∃ tail, Spells c.toNat (b :: tail) ∧ rest = tail ++ rest.drop k := by
  unfold triple at h
  split at h
  · next d e rest =>
    split at h
    · simp [fault] at h
    split at h
    · simp [fault] at h
    · next hd he =>
      rw [Bool.not_eq_true', Bool.not_eq_false, isSecond_iff] at hd
      rw [Bool.not_eq_true', Bool.not_eq_false, isTail_iff] at he
      obtain ⟨rfl, rfl⟩ := by simpa using h
      refine ⟨[d, e], ?_, rfl⟩
      rw [tailBits, tailBits, toNat_ofNat (by omega)]
      exact .three (by omega) (by omega) (by omega) (by omega) (by omega)
  · simp [fault] at h
  · simp [fault] at h

theorem spells_of_quadruple {b : UInt8} {rest : List UInt8} {c : Char} {k : Nat}
    (hlow : 0xF0 ≤ b.toNat) (hhigh : b.toNat < 0xF5) (h : quadruple b rest = ⟨some c, k⟩) :
    ∃ tail, Spells c.toNat (b :: tail) ∧ rest = tail ++ rest.drop k := by
  unfold quadruple at h
  split at h
  · next d e f rest =>
    split at h
    · simp [fault] at h
    split at h
    · simp [fault] at h
    split at h
    · simp [fault] at h
    · next hd he hf =>
      rw [Bool.not_eq_true', Bool.not_eq_false, isSecond_iff] at hd
      rw [Bool.not_eq_true', Bool.not_eq_false, isTail_iff] at he hf
      obtain ⟨rfl, rfl⟩ := by simpa using h
      refine ⟨[d, e, f], ?_, rfl⟩
      rw [tailBits, tailBits, tailBits, toNat_ofNat (by omega)]
      exact .four (by omega) (by omega) (by omega) (by omega) (by omega) (by omega)
  · simp [fault] at h
  · simp [fault] at h
  · simp [fault] at h

/-- Bytes that are read as a character make it up. -/
theorem spells_of_first {b : UInt8} {rest : List UInt8} {c : Char} {k : Nat}
    (h : first b rest = ⟨some c, k⟩) :
    ∃ tail, Spells c.toNat (b :: tail) ∧ rest = tail ++ rest.drop k := by
  simp only [first, UInt8.lt_iff_toNat_lt, UInt8.reduceToNat] at h
  split at h
  · obtain ⟨rfl, rfl⟩ := by simpa using h
    exact ⟨[], .one (by rw [toNat_ofNat] <;> omega) (by rw [toNat_ofNat]; omega), rfl⟩
  split at h
  · simp [fault] at h
  split at h
  · exact spells_of_pair (by omega) (by omega) h
  split at h
  · exact spells_of_triple (by omega) (by omega) h
  split at h
  · exact spells_of_quadruple (by omega) (by omega) h
  · simp [fault] at h

/-! ## Texts -/

theorem units_utf8EncodeChar_append (c : Char) (rest : List UInt8) :
    ∃ more, units (String.utf8EncodeChar c ++ rest) = ⟨some c, more⟩ :: units rest := by
  obtain ⟨b, tail, heq⟩ := List.exists_cons_of_ne_nil (String.utf8EncodeChar_ne_nil (c := c))
  have hfirst := first_of_spells (heq ▸ spells_utf8EncodeChar c) rest
  refine ⟨tail.length, ?_⟩
  rw [heq, List.cons_append, units, hfirst]
  simp

/-- **The bytes of a text are read back as it.** -/
theorem decode?_encode (s : List Char) : decode? (encode s) = some s := by
  unfold decode? encode
  induction s with
  | nil => simp [units]
  | cons c s ih =>
    obtain ⟨more, hunits⟩ := units_utf8EncodeChar_append c (s.flatMap String.utf8EncodeChar)
    rw [List.flatMap_cons, hunits]
    simp [ih]

/-- Bytes without a fault are the bytes of the text that they are read as. -/
theorem encode_of_decode? {bytes : List UInt8} {s : List Char} (h : decode? bytes = some s) :
    encode s = bytes := by
  unfold decode? encode at *
  induction bytes using units.induct generalizing s with
  | case1 =>
    obtain rfl := by simpa [units] using h
    rfl
  | case2 b rest ih =>
    rw [units, List.mapM_cons] at h
    cases hfirst : first b rest with
    | mk char more =>
      cases char with
      | none => simp [hfirst] at h
      | some c =>
        rw [hfirst] at h ih
        obtain ⟨s', hs', rfl⟩ : ∃ s', (units (rest.drop more)).mapM (·.char) = some s' ∧
            c :: s' = s := by
          simpa [Option.bind_eq_some_iff] using h
        obtain ⟨tail, hspells, hrest⟩ := spells_of_first hfirst
        rw [List.flatMap_cons, (spells_utf8EncodeChar c).eq hspells, ih hs', List.cons_append,
          ← hrest]

/-- **A strict reading is the inverse of writing.** -/
theorem decode?_eq_some_iff {bytes : List UInt8} {s : List Char} :
    decode? bytes = some s ↔ encode s = bytes :=
  ⟨encode_of_decode?, fun h => h ▸ decode?_encode s⟩

/-- Where there is no fault, a lossy reading is a strict one. -/
theorem decodeLossy_of_decode? {bytes : List UInt8} {s : List Char} (h : decode? bytes = some s) :
    decodeLossy bytes = s := by
  unfold decodeLossy
  unfold decode? at h
  generalize units bytes = us at h ⊢
  induction us generalizing s with
  | nil =>
    obtain rfl := by simpa using h
    rfl
  | cons u us ih =>
    obtain ⟨c, hc, s', hs', rfl⟩ : ∃ c, u.char = some c ∧
        ∃ s', us.mapM (·.char) = some s' ∧ c :: s' = s := by
      simpa [Option.bind_eq_some_iff] using h
    rw [List.map_cons, ih hs', hc]
    rfl

theorem decodeLossy_encode (s : List Char) : decodeLossy (encode s) = s :=
  decodeLossy_of_decode? (decode?_encode s)

end StepScript.Text.Utf8
