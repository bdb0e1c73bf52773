/-!
# Sets of characters in patterns

What a pattern may ask of one character: to be a given one, to lie in a range, to be a decimal
digit, or to be a word character.
-/

set_option autoImplicit false

namespace StepScript.Pattern

/-! ## Tables -/

/-- The code points of the zeros of the decimal digit systems. The nine other digits of a system
follow its zero. -/
def digitZeros : List Nat :=
  [0x0030, 0x0660, 0x06F0, 0x07C0, 0x0966, 0x09E6, 0x0A66, 0x0AE6, 0x0B66, 0x0BE6, 0x0C66, 0x0CE6,
   0x0D66, 0x0DE6, 0x0E50, 0x0ED0, 0x0F20, 0x1040, 0x1090, 0x17E0, 0x1810, 0x1946, 0x19D0, 0x1A80,
   0x1A90, 0x1B50, 0x1BB0, 0x1C40, 0x1C50, 0xA620, 0xA8D0, 0xA900, 0xA9D0, 0xA9F0, 0xAA50, 0xABF0,
   0xFF10, 0x104A0, 0x10D30, 0x10D40, 0x11066, 0x110F0, 0x11136, 0x111D0, 0x112F0, 0x11450, 0x114D0,
   0x11650, 0x116C0, 0x116D0, 0x116DA, 0x11730, 0x118E0, 0x11950, 0x11BF0, 0x11C50, 0x11D50,
   0x11DA0, 0x11F50, 0x16130, 0x16A60, 0x16AC0, 0x16B50, 0x16D70, 0x1CCF0, 0x1D7CE, 0x1D7D8,
   0x1D7E2, 0x1D7EC, 0x1D7F6, 0x1E140, 0x1E2F0, 0x1E4F0, 0x1E5F1, 0x1E950, 0x1FBF0]

/-- The code points of the CJK ideographs and of the punctuation that connects words. -/
def wordRanges : List (Nat × Nat) :=
  [(0x203F, 0x2040), (0x2054, 0x2054), (0x3005, 0x3007), (0x3021, 0x3029), (0x3038, 0x303C),
   (0x3400, 0x4DBF), (0x4E00, 0x9FFF), (0xF900, 0xFA6D), (0xFA70, 0xFAD9), (0xFE33, 0xFE34),
   (0xFE4D, 0xFE4F), (0xFF3F, 0xFF3F), (0x20000, 0x2A6DF), (0x2A700, 0x2B739), (0x2B740, 0x2B81D),
   (0x2B820, 0x2CEA1), (0x2CEB0, 0x2EBE0), (0x2EBF0, 0x2EE5D), (0x2F800, 0x2FA1D),
   (0x30000, 0x3134A), (0x31350, 0x323AF)]

def isDigit (c : Char) : Bool :=
  digitZeros.any fun z => decide (z ≤ c.toNat) && decide (c.toNat < z + 10)

/-- Whether a character is a word character: an ASCII letter, a digit, an underscore, a CJK
ideograph, or punctuation that connects words. Scripts are written with no other letters. -/
def isWord (c : Char) : Bool :=
  c.isAlpha || c == '_' || isDigit c ||
    wordRanges.any fun r => decide (r.1 ≤ c.toNat) && decide (c.toNat ≤ r.2)

/-! ## Sets -/

/-- How two sets make a third one. -/
inductive SetOperator where
  | union
  | intersection
  | difference
  /-- What lies in one of two sets but not in both. -/
  | symmetricDifference
deriving DecidableEq

/-- Whether a character lies in a set, given whether it lies in the two sets that make it. -/
def SetOperator.holds (a b : Bool) : SetOperator → Bool
  | .union => a || b
  | .intersection => a && b
  | .difference => a && !b
  | .symmetricDifference => a != b

inductive CharSet where
  /-- Any character but the line feed. -/
  | any
  /-- No character. -/
  | none
  /-- The characters from one to another. -/
  | range (low high : Char)
  | digit
  | word
  | complement (a : CharSet)
  | combined (op : SetOperator) (a b : CharSet)
deriving DecidableEq

namespace CharSet

def contains (c : Char) : CharSet → Bool
  | .any => c != '\n'
  | .none => false
  | .range low high => low ≤ c && c ≤ high
  | .digit => isDigit c
  | .word => isWord c
  | .complement a => !a.contains c
  | .combined op a b => op.holds (a.contains c) (b.contains c)

def single (c : Char) : CharSet :=
  .range c c

def union (a b : CharSet) : CharSet :=
  .combined .union a b

def ofRanges (ranges : List (Char × Char)) : CharSet :=
  ranges.foldl (fun set r => set.union (.range r.1 r.2)) .none

def named : List (String × List (Char × Char)) :=
  [("alnum", [('0', '9'), ('A', 'Z'), ('a', 'z')]), ("alpha", [('A', 'Z'), ('a', 'z')]),
    ("ascii", [('\x00', '\x7f')]), ("blank", [('\t', '\t'), (' ', ' ')]),
    ("cntrl", [('\x00', '\x1f'), ('\x7f', '\x7f')]), ("digit", [('0', '9')]),
    ("graph", [('!', '~')]), ("lower", [('a', 'z')]), ("print", [(' ', '~')]),
    ("punct", [('!', '/'), (':', '@'), ('[', '\x60'), ('\x7b', '~')]),
    ("space", [('\t', '\r'), (' ', ' ')]), ("upper", [('A', 'Z')]),
    ("word", [('0', '9'), ('A', 'Z'), ('_', '_'), ('a', 'z')]),
    ("xdigit", [('0', '9'), ('A', 'F'), ('a', 'f')])]

end CharSet

end StepScript.Pattern
