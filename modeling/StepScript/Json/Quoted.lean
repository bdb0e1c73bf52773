/-!
# Quoted text

A quoted text stands between double quotes; quotes, backslashes and control characters in it are
written as escapes. An escape with four hexadecimal digits names a **unit**, and a character above
the first 2^16 takes two of them, a high one and a low one. A unit of these that stands alone is
well formed, but no text.

Main statements: `pieces?_write` and `decode?_map_piece` — what `write` writes is read back.
-/

set_option autoImplicit false

namespace StepScript.Json

/-! ## Reading -/

inductive Piece where
  /-- A character, as such or behind a backslash. -/
  | char (c : Char)
  /-- A unit, by its four digits. -/
  | unit (n : Nat)
deriving DecidableEq

def hexDigit? (c : Char) : Option Nat :=
  if '0' ≤ c ∧ c ≤ '9' then some (c.toNat - '0'.toNat)
  else if 'a' ≤ c ∧ c ≤ 'f' then some (c.toNat - 'a'.toNat + 10)
  else if 'A' ≤ c ∧ c ≤ 'F' then some (c.toNat - 'A'.toNat + 10)
  else none

/-- The unit that four digits name. -/
def unit? (a b c d : Char) : Option Nat :=
  match hexDigit? a, hexDigit? b, hexDigit? c, hexDigit? d with
  | some a, some b, some c, some d => some (((a * 16 + b) * 16 + c) * 16 + d)
  | _, _, _, _ => none

/-- The character that a letter stands for behind a backslash. -/
def escaped? : Char → Option Char
  | '"' => some '"'
  | '\\' => some '\\'
  | '/' => some '/'
  | 'b' => some '\x08'
  | 'f' => some '\x0c'
  | 'n' => some '\n'
  | 'r' => some '\r'
  | 't' => some '\t'
  | _ => none

/-- The pieces of a text behind its opening quote, and what follows the closing one. -/
def pieces? : List Char → Option (List Piece × List Char)
  | [] => none
  | '"' :: s => some ([], s)
  | '\\' :: 'u' :: a :: b :: c :: d :: s =>
    match unit? a b c d, pieces? s with
    | some n, some (ps, rest) => some (.unit n :: ps, rest)
    | _, _ => none
  | '\\' :: e :: s =>
    match escaped? e, pieces? s with
    | some c, some (ps, rest) => some (.char c :: ps, rest)
    | _, _ => none
  | c :: s =>
    if c = '\\' ∨ c < ' ' then none
    else (pieces? s).map fun (ps, rest) => (.char c :: ps, rest)

/-- Whether a unit is the first one of two. -/
def isHighUnit (n : Nat) : Bool :=
  0xD800 ≤ n && n < 0xDC00

/-- Whether a unit is the second one of two. -/
def isLowUnit (n : Nat) : Bool :=
  0xDC00 ≤ n && n < 0xE000

def decode? : List Piece → Option (List Char)
  | [] => some []
  | .char c :: ps => (decode? ps).map (c :: ·)
  | .unit n :: .unit m :: ps =>
    if isHighUnit n then
      if isLowUnit m then
        (decode? ps).map (Char.ofNat (0x10000 + (n - 0xD800) * 0x400 + (m - 0xDC00)) :: ·)
      else none
    else if isLowUnit n then none
    else (decode? (.unit m :: ps)).map (Char.ofNat n :: ·)
  | .unit n :: ps =>
    if isHighUnit n || isLowUnit n then none else (decode? ps).map (Char.ofNat n :: ·)

/-! ## Writing -/

def hexDigit (n : Nat) : Char :=
  if n < 10 then Char.ofNat ('0'.toNat + n) else Char.ofNat ('a'.toNat + (n - 10))

def writeChar (c : Char) : List Char :=
  if c = '"' then ['\\', '"']
  else if c = '\\' then ['\\', '\\']
  else if c = '\x08' then ['\\', 'b']
  else if c = '\x0c' then ['\\', 'f']
  else if c = '\n' then ['\\', 'n']
  else if c = '\r' then ['\\', 'r']
  else if c = '\t' then ['\\', 't']
  else if c < ' ' then ['\\', 'u', '0', '0', hexDigit (c.toNat / 16), hexDigit (c.toNat % 16)]
  else [c]

def write (s : List Char) : List Char :=
  '"' :: s.flatMap writeChar ++ ['"']

/-- A key in front of a value that is written already. -/
def writeMember (key : String) (value : List Char) : List Char :=
  write key.toList ++ ':' :: value

/-! ## Laws -/

/-- What follows a quoted text is shorter than what follows its opening quote. -/
theorem length_of_pieces? {s rest : List Char} {ps : List Piece} (h : pieces? s = some (ps, rest)) :
    rest.length < s.length := by
  fun_induction pieces? s generalizing ps with
  | case1 => simp at h
  | case2 s => simp_all
  | case3 a b c d s n ps' rest' hs hu ih =>
    obtain ⟨_, rfl⟩ := by simpa using h
    have := ih hs
    simp only [List.length_cons]
    omega
  | case4 => simp at h
  | case5 e s hne c ps' rest' hs he ih =>
    obtain ⟨_, rfl⟩ := by simpa using h
    have := ih hs
    simp only [List.length_cons]
    omega
  | case6 => simp at h
  | case7 => simp at h
  | case8 c s h1 h2 h3 h4 ih =>
    obtain ⟨⟨ps', rest'⟩, hs, heq⟩ := Option.map_eq_some_iff.1 h
    obtain ⟨_, rfl⟩ := by simpa using heq
    have := ih hs
    simp only [List.length_cons]
    omega

def piece (c : Char) : Piece :=
  if c < ' ' ∧ c ≠ '\x08' ∧ c ≠ '\x0c' ∧ c ≠ '\n' ∧ c ≠ '\r' ∧ c ≠ '\t' then .unit c.toNat
  else .char c

/-- Control characters, one by one. -/
theorem forall_control {P : Char → Prop} (h : ∀ n : Fin 32, P (Char.ofNat n)) (c : Char)
    (hc : c < ' ') : P c := by
  have hn : c.toNat < 32 := hc
  simpa [Char.ofNat_toNat] using h ⟨c.toNat, hn⟩

theorem unit?_hexDigits (c : Char) (h : c < ' ') :
    unit? '0' '0' (hexDigit (c.toNat / 16)) (hexDigit (c.toNat % 16)) = some c.toNat :=
  forall_control (P := fun c => unit? '0' '0' (hexDigit (c.toNat / 16)) (hexDigit (c.toNat % 16)) =
    some c.toNat) (by decide) c h

theorem le_toNat_hexDigit {n : Nat} (h : n < 16) : 32 ≤ (hexDigit n).toNat :=
  (by decide : ∀ n : Fin 16, 32 ≤ (hexDigit n).toNat) ⟨n, h⟩

/-- What is written has no control characters. -/
theorem le_of_mem_writeChar {c d : Char} (h : d ∈ writeChar c) : 32 ≤ d.toNat := by
  unfold writeChar at h
  iterate 7
    split at h
    · simp only [List.mem_cons, List.not_mem_nil, or_false] at h
      obtain rfl | rfl := h <;> decide
  split at h
  · next hc =>
    have hlt : c.toNat < 32 := hc
    simp only [List.mem_cons, List.not_mem_nil, or_false] at h
    obtain rfl | rfl | rfl | rfl | rfl | rfl := h
    iterate 4 · decide
    · exact le_toNat_hexDigit (by omega)
    · exact le_toNat_hexDigit (by omega)
  · next hc =>
    obtain rfl := List.mem_singleton.1 h
    exact Nat.le_of_not_lt hc

theorem le_of_mem_write {s : List Char} {d : Char} (h : d ∈ write s) : 32 ≤ d.toNat := by
  rw [write, List.cons_append, List.mem_cons, List.mem_append, List.mem_singleton] at h
  obtain rfl | h | rfl := h
  · decide
  · obtain ⟨c, -, hd⟩ := List.mem_flatMap.1 h
    exact le_of_mem_writeChar hd
  · decide

/-- A written character is read as one piece. -/
theorem pieces?_writeChar (c : Char) (s : List Char) :
    pieces? (writeChar c ++ s) = (pieces? s).map fun (ps, rest) => (piece c :: ps, rest) := by
  unfold writeChar
  iterate 7
    split
    · next h => subst h; cases hs : pieces? s <;> simp [pieces?, escaped?, piece, hs]
  split
  · next h => cases hs : pieces? s <;> simp [pieces?, unit?_hexDigits c h, piece, *]
  · next h => cases hs : pieces? s <;> simp [pieces?, piece, *]

/-- What is written between quotes is read back up to the closing quote. -/
theorem pieces?_write (s rest : List Char) :
    pieces? (s.flatMap writeChar ++ '"' :: rest) = some (s.map piece, rest) := by
  induction s with
  | nil => rfl
  | cons c s ih => simp [pieces?_writeChar, ih]

/-- A unit below the high ones is a character of its own. -/
theorem decode?_unit {n : Nat} (h : n < 0xD800) (ps : List Piece) :
    decode? (.unit n :: ps) = (decode? ps).map (Char.ofNat n :: ·) := by
  have hn : isHighUnit n = false := by simp [isHighUnit]; omega
  have ln : isLowUnit n = false := by simp [isLowUnit]; omega
  match ps with
  | [] => simp [decode?, hn, ln]
  | .char c :: ps => simp [decode?, hn, ln]
  | .unit m :: ps => simp [decode?, hn, ln]

/-- A written text is decoded to itself. -/
theorem decode?_map_piece (s : List Char) : decode? (s.map piece) = some s := by
  induction s with
  | nil => rfl
  | cons c s ih =>
    rw [List.map_cons, piece]
    split
    · next h =>
      have hc : c.toNat < 0xD800 := Nat.lt_trans (show c.toNat < 32 from h.1) (by decide)
      simp [decode?_unit hc, ih]
    · simp [decode?, ih]

end StepScript.Json
