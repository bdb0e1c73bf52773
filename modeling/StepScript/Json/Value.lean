import StepScript.Json.Token

/-!
# Data

Written data are read token by token by a machine that keeps the lists and records that are still
open on a stack of its own, so that they may be nested as deep as one likes.
-/

set_option autoImplicit false

namespace StepScript.Json

/-- Data. The value of a number is not kept. -/
inductive Value where
  | null
  | bool (b : Bool)
  | number
  | string (pieces : List Piece)
  | array (items : List Value)
  | object (members : List (List Piece × Value))

/-! ## The machine -/

/-- What is read of a list or a record that is still open, the last part first. -/
inductive Frame where
  | array (items : List Value)
  /-- A record between two members. -/
  | object (members : List (List Piece × Value))
  /-- A record whose last member has no value yet. -/
  | member (members : List (List Piece × Value)) (key : List Piece)

/-- What the next token may be. -/
inductive Expectation where
  | value
  /-- A value, or the end of an empty list. -/
  | firstItem
  /-- A key, or the end of an empty record. -/
  | firstKey
  | key
  | colon
  /-- What follows a value. -/
  | behind (v : Value)

/-- The state between two tokens, with the innermost frame first. -/
structure Reader where
  expected : Expectation
  frames : List Frame

namespace Reader

/-- The state after a token at which a value starts. -/
def startValue (frames : List Frame) : Token → Option Reader
  | .null => some ⟨.behind .null, frames⟩
  | .bool b => some ⟨.behind (.bool b), frames⟩
  | .number => some ⟨.behind .number, frames⟩
  | .string ps => some ⟨.behind (.string ps), frames⟩
  | .openBracket => some ⟨.firstItem, .array [] :: frames⟩
  | .openBrace => some ⟨.firstKey, .object [] :: frames⟩
  | _ => none

/-- The state after one more token, if the token may stand there. -/
def step (r : Reader) (t : Token) : Option Reader :=
  match r.expected, r.frames, t with
  | .value, frames, t => startValue frames t
  | .firstItem, .array [] :: frames, .closeBracket => some ⟨.behind (.array []), frames⟩
  | .firstItem, frames, t => startValue frames t
  | .firstKey, .object [] :: frames, .closeBrace => some ⟨.behind (.object []), frames⟩
  | .firstKey, .object members :: frames, .string key
  | .key, .object members :: frames, .string key => some ⟨.colon, .member members key :: frames⟩
  | .colon, frames, .colon => some ⟨.value, frames⟩
  | .behind v, .array items :: frames, .comma => some ⟨.value, .array (v :: items) :: frames⟩
  | .behind v, .array items :: frames, .closeBracket =>
    some ⟨.behind (.array (v :: items).reverse), frames⟩
  | .behind v, .member members key :: frames, .comma =>
    some ⟨.key, .object ((key, v) :: members) :: frames⟩
  | .behind v, .member members key :: frames, .closeBrace =>
    some ⟨.behind (.object ((key, v) :: members).reverse), frames⟩
  | _, _, _ => none

def start : Reader := ⟨.value, []⟩

/-- What was read, if nothing is open. -/
def result? : Reader → Option Value
  | ⟨.behind v, []⟩ => some v
  | _ => none

end Reader

def read (s : List Char) : Option Value :=
  ((tokens? s).bind fun ts => ts.foldlM Reader.step Reader.start).bind Reader.result?

end StepScript.Json
