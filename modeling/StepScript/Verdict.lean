import StepScript.Json.Value
import StepScript.Text.Blank

/-!
# Verdicts

For every line of a script the device answers with a **verdict**: whether the line succeeded, and
perhaps a text. Outside the program a verdict is written as data: a record with the members
`success` and `error`, or a list of these two, in which the text may be missing.

Main statement: `ofText?_toText` — every verdict is read back as it was written.
-/

set_option autoImplicit false

namespace StepScript

/-- The answer of a device to one line. -/
structure Verdict where
  success : Bool
  /-- What the device says, which is mostly why the line failed. -/
  error : Option (List Char)
deriving DecidableEq

namespace Verdict

def ok : Verdict := ⟨true, none⟩

/-- What the user is told of a line that failed. -/
def failureText (v : Verdict) : List Char :=
  match v.error with
  | some s => if Text.allBlank s then "unknown error".toList else s
  | none => "unknown error".toList

/-! ## Reading -/

/-- The text that data stand for, where there may be none. -/
def text? : Json.Value → Option (Option (List Char))
  | .null => some none
  | .string ps => (Json.decode? ps).map some
  | _ => none

/-- The values of a key in a record whose keys are decoded. -/
def valuesOf (key : String) (members : List (List Char × Json.Value)) : List Json.Value :=
  (members.filter fun (k, _) => k = key.toList).map Prod.snd

/-- The verdict in a record. Each of the two members may be there once, `success` must be, and other
members do not matter. -/
def ofMembers? (members : List (List Char × Json.Value)) : Option Verdict :=
  match valuesOf "success" members, valuesOf "error" members with
  | [.bool success], [] => some ⟨success, none⟩
  | [.bool success], [v] => (text? v).map fun error => ⟨success, error⟩
  | _, _ => none

def ofValue? : Json.Value → Option Verdict
  | .array [.bool success] => some ⟨success, none⟩
  | .array [.bool success, v] => (text? v).map fun error => ⟨success, error⟩
  | .object members =>
    (members.mapM fun m => (Json.decode? m.1).map fun key => (key, m.2)).bind ofMembers?
  | _ => none

def ofText? (s : List Char) : Option Verdict :=
  (Json.read s).bind ofValue?

/-! ## Writing -/

/-- A verdict as a record. A text that is missing is left out. -/
def toText (v : Verdict) : List Char :=
  '{' :: Json.writeMember "success" (if v.success then "true".toList else "false".toList) ++
    (match v.error with
    | some s => ',' :: Json.writeMember "error" (Json.write s)
    | none => []) ++ ['}']

/-! ## Round trip -/

/-- The members of the record that a verdict is written as. -/
def members (v : Verdict) : List (List Char × Json.Value) :=
  ("success".toList, .bool v.success) ::
    match v.error with
    | some s => [("error".toList, .string (s.map Json.piece))]
    | none => []

open Json in
theorem tokens?_toText (v : Verdict) :
    tokens? v.toText = some (.openBrace :: .string ("success".toList.map piece) :: .colon ::
      .bool v.success :: ((match v.error with
        | some s => [.comma, .string ("error".toList.map piece), .colon, .string (s.map piece)]
        | none => []) ++ [.closeBrace])) := by
  have hend : tokens? ['}'] = some [.closeBrace] := by
    rw [tokens?_of_token? (t := .closeBrace) rfl rfl, tokens?]
    rfl
  obtain ⟨success, error⟩ := v
  rw [toText, List.cons_append, List.cons_append, tokens?_of_token? (t := .openBrace) rfl rfl,
    List.append_assoc, tokens?_writeMember, tokens?_word]
  cases error with
  | none =>
      dsimp only
      rw [List.nil_append, hend]
      rfl
  | some s =>
      dsimp only
      rw [List.cons_append, tokens?_of_token? (t := .comma) rfl rfl, tokens?_writeMember,
        tokens?_write, hend]
      rfl

/-- A verdict is written as a record. -/
theorem read_toText (v : Verdict) :
    Json.read v.toText =
      some (.object (v.members.map fun (key, value) => (key.map Json.piece, value))) := by
  rw [Json.read, tokens?_toText]
  obtain ⟨success, error⟩ := v
  cases error <;> rfl

theorem ofMembers?_members (v : Verdict) : ofMembers? v.members = some v := by
  obtain ⟨success, error⟩ := v
  cases error with
  | none => rfl
  | some s => simp [members, ofMembers?, valuesOf, text?, Json.decode?_map_piece]

/-- **Every verdict is read back as it was written.** -/
theorem ofText?_toText (v : Verdict) : ofText? v.toText = some v := by
  have hkeys : ∀ ms : List (List Char × Json.Value),
      ((ms.map fun (key, value) => (key.map Json.piece, value)).mapM fun m =>
        (Json.decode? m.1).map fun key => (key, m.2)) = some ms := by
    intro ms
    induction ms with
    | nil => rfl
    | cons m ms ih => simp [Json.decode?_map_piece, ih]
  rw [ofText?, read_toText, Option.bind_some, ofValue?, hkeys, Option.bind_some,
    ofMembers?_members]

end Verdict

end StepScript
