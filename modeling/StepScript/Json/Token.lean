import StepScript.Json.Quoted
import StepScript.Text.Cut

/-!
# The tokens of data

Data are written in six punctuation marks, quoted texts, numbers and three words. Only four
characters count as blank between them. The value of a number is of no use here, so that only its
form is checked.

Main statement: `tokens?_write` — a text that is written between quotes is read as one token, and
so `tokens?_writeMember` of a whole member.
-/

set_option autoImplicit false

namespace StepScript.Json

inductive Token where
  | openBrace
  | closeBrace
  | openBracket
  | closeBracket
  | comma
  | colon
  | null
  | bool (b : Bool)
  | number
  | string (pieces : List Piece)
deriving DecidableEq

def isGap (c : Char) : Bool :=
  c == ' ' || c == '\n' || c == '\t' || c == '\r'

/-! ## Numbers -/

def afterDigits? (s : List Char) : Option (List Char) :=
  if (s.takeWhile Char.isDigit).isEmpty then none else some (s.dropWhile Char.isDigit)

/-- What follows the digits in front of the point. Nothing follows a zero in first place. -/
def afterWhole? : List Char → Option (List Char)
  | '0' :: s => some s
  | s => afterDigits? s

def afterFraction? : List Char → Option (List Char)
  | '.' :: s => afterDigits? s
  | s => some s

def afterExponent? : List Char → Option (List Char)
  | 'e' :: '+' :: s | 'e' :: '-' :: s | 'E' :: '+' :: s | 'E' :: '-' :: s => afterDigits? s
  | 'e' :: s | 'E' :: s => afterDigits? s
  | s => some s

def afterUnsigned? (s : List Char) : Option (List Char) :=
  ((afterWhole? s).bind afterFraction?).bind afterExponent?

/-! ## Tokens -/

def token? : List Char → Option (Token × List Char)
  | [] => none
  | '{' :: s => some (.openBrace, s)
  | '}' :: s => some (.closeBrace, s)
  | '[' :: s => some (.openBracket, s)
  | ']' :: s => some (.closeBracket, s)
  | ',' :: s => some (.comma, s)
  | ':' :: s => some (.colon, s)
  | 'n' :: s => (Text.after? "ull".toList s).map fun s => (.null, s)
  | 't' :: s => (Text.after? "rue".toList s).map fun s => (.bool true, s)
  | 'f' :: s => (Text.after? "alse".toList s).map fun s => (.bool false, s)
  | '"' :: s => (pieces? s).map fun (ps, s) => (.string ps, s)
  | '-' :: s => (afterUnsigned? s).map fun s => (.number, s)
  | s => (afterUnsigned? s).map fun s => (.number, s)

/-! ### Progress -/

theorem length_of_afterDigits? {s rest : List Char} (h : afterDigits? s = some rest) :
    rest.length < s.length := by
  unfold afterDigits? at h
  split at h
  · simp at h
  · next hd =>
    obtain rfl := Option.some.inj h
    have hsum := congrArg List.length (List.takeWhile_append_dropWhile (p := Char.isDigit) (l := s))
    have hpos : 0 < (s.takeWhile Char.isDigit).length := List.length_pos_iff.2 (by simpa using hd)
    rw [List.length_append] at hsum
    omega

theorem length_of_afterWhole? {s rest : List Char} (h : afterWhole? s = some rest) :
    rest.length < s.length := by
  unfold afterWhole? at h
  split at h
  · obtain rfl := Option.some.inj h
    exact Nat.lt_succ_self _
  · exact length_of_afterDigits? h

theorem length_of_afterFraction? {s rest : List Char} (h : afterFraction? s = some rest) :
    rest.length ≤ s.length := by
  unfold afterFraction? at h
  split at h
  · exact Nat.le_succ_of_le (Nat.le_of_lt (length_of_afterDigits? h))
  · exact Nat.le_of_eq (congrArg List.length (Option.some.inj h).symm)

theorem length_of_afterExponent? {s rest : List Char} (h : afterExponent? s = some rest) :
    rest.length ≤ s.length := by
  unfold afterExponent? at h
  split at h
  iterate 4
    · exact Nat.le_succ_of_le (Nat.le_succ_of_le (Nat.le_of_lt (length_of_afterDigits? h)))
  iterate 2
    · exact Nat.le_succ_of_le (Nat.le_of_lt (length_of_afterDigits? h))
  · exact Nat.le_of_eq (congrArg List.length (Option.some.inj h).symm)

/-- A number is not empty. -/
theorem length_of_afterUnsigned? {s rest : List Char} (h : afterUnsigned? s = some rest) :
    rest.length < s.length := by
  obtain ⟨t, ht, he⟩ := Option.bind_eq_some_iff.1 h
  obtain ⟨u, hu, hf⟩ := Option.bind_eq_some_iff.1 ht
  have h1 := length_of_afterWhole? hu
  have h2 := length_of_afterFraction? hf
  have h3 := length_of_afterExponent? he
  omega

/-- What follows a word is not longer than the text. -/
theorem length_of_after? {w s rest : List Char} (h : Text.after? w s = some rest) :
    rest.length ≤ s.length := by
  rw [Text.after?_eq_some] at h
  subst h
  simp

/-- A token is not empty. -/
theorem length_of_token? {s rest : List Char} {t : Token} (h : token? s = some (t, rest)) :
    rest.length < s.length := by
  unfold token? at h
  split at h
  · simp at h
  iterate 6
    · obtain ⟨_, rfl⟩ := by simpa using h
      exact Nat.lt_succ_self _
  iterate 3
    · obtain ⟨u, hu, heq⟩ := Option.map_eq_some_iff.1 h
      obtain ⟨_, rfl⟩ := by simpa using heq
      exact Nat.lt_succ_of_le (length_of_after? hu)
  · obtain ⟨⟨ps, u⟩, hu, heq⟩ := Option.map_eq_some_iff.1 h
    obtain ⟨_, rfl⟩ := by simpa using heq
    exact Nat.lt_succ_of_lt (length_of_pieces? hu)
  · obtain ⟨u, hu, heq⟩ := Option.map_eq_some_iff.1 h
    obtain ⟨_, rfl⟩ := by simpa using heq
    exact Nat.lt_succ_of_lt (length_of_afterUnsigned? hu)
  · obtain ⟨u, hu, heq⟩ := Option.map_eq_some_iff.1 h
    obtain ⟨_, rfl⟩ := by simpa using heq
    exact length_of_afterUnsigned? hu

def tokens? (s : List Char) : Option (List Token) :=
  match s with
  | [] => some []
  | c :: s =>
    if isGap c then tokens? s
    else
      match _h : token? (c :: s) with
      | none => none
      | some (t, rest) => (tokens? rest).map (t :: ·)
termination_by s.length
decreasing_by
  · exact Nat.lt_succ_self _
  · exact length_of_token? _h

/-! ## Laws -/

/-- The token at the start of a text is the first of its tokens. -/
theorem tokens?_of_token? {c : Char} {s rest : List Char} {t : Token} (hc : isGap c = false)
    (h : token? (c :: s) = some (t, rest)) :
    tokens? (c :: s) = (tokens? rest).map (t :: ·) := by
  rw [tokens?, hc, if_neg Bool.false_ne_true]
  split
  · next hnone => cases h.symm.trans hnone
  · next t' rest' hsome =>
    obtain ⟨rfl, rfl⟩ := Prod.mk.inj (Option.some.inj (h.symm.trans hsome))
    rfl

/-- A quoted text is one token. -/
theorem tokens?_write (s rest : List Char) :
    tokens? (write s ++ rest) = (tokens? rest).map (.string (s.map piece) :: ·) := by
  have hquoted : write s ++ rest = '"' :: (s.flatMap writeChar ++ '"' :: rest) := by
    rw [write, List.append_assoc]
    rfl
  have htoken : token? ('"' :: (s.flatMap writeChar ++ '"' :: rest)) =
      some (.string (s.map piece), rest) := by
    rw [token?, pieces?_write]
    rfl
  rw [hquoted, tokens?_of_token? rfl htoken]

theorem tokens?_writeMember (key : String) (s rest : List Char) :
    tokens? (writeMember key s ++ rest) =
      (tokens? (s ++ rest)).map fun ts => .string (key.toList.map piece) :: .colon :: ts := by
  rw [writeMember, List.append_assoc, tokens?_write, List.cons_append,
    tokens?_of_token? (t := .colon) rfl rfl, Option.map_map]
  rfl

theorem tokens?_word (b : Bool) (rest : List Char) :
    tokens? ((if b then "true".toList else "false".toList) ++ rest) =
      (tokens? rest).map (.bool b :: ·) := by
  cases b with
  | true =>
      have htoken : token? ('t' :: ("rue".toList ++ rest)) = some (.bool true, rest) := by
        rw [token?, Text.after?_append]
        rfl
      exact tokens?_of_token? rfl htoken
  | false =>
      have htoken : token? ('f' :: ("alse".toList ++ rest)) = some (.bool false, rest) := by
        rw [token?, Text.after?_append]
        rfl
      exact tokens?_of_token? rfl htoken

end StepScript.Json
