/-!
# Cutting texts

`after? opening s` is what follows a given opening of a text. `cutAt c s` cuts a text at the first
occurrence of `c` and `cutAtLast c s` at the last one; the character itself belongs to neither part.

Main statements:

* `after?_eq_some` — the opening and what follows it make up the text;
* `eq_of_cutAt` — the two parts and the character between them make up the text, and the character
  is absent from the first one.
-/

set_option autoImplicit false

namespace StepScript.Text

/-- What a text holds after a given opening. -/
def after? : List Char → List Char → Option (List Char)
  | [], s => some s
  | _ :: _, [] => none
  | p :: opening, c :: s => if p = c then after? opening s else none

/-- What comes before and after the first `c` of a text. -/
def cutAt (c : Char) : List Char → Option (List Char × List Char)
  | [] => none
  | d :: s =>
    if d = c then some ([], s)
    else (cutAt c s).map fun (before, after) => (d :: before, after)

/-- What comes before and after the last `c` of a text. -/
def cutAtLast (c : Char) : List Char → Option (List Char × List Char)
  | [] => none
  | d :: s =>
    match cutAtLast c s with
    | some (before, after) => some (d :: before, after)
    | none => if d = c then some ([], s) else none

/-- What is left of a text without the last character, if that one is `c`. -/
def dropLast? (c : Char) (s : List Char) : Option (List Char) :=
  if s.getLast? = some c then some s.dropLast else none

/-- What a text holds between a given opening and the closing character at its end. -/
def between? (opening : List Char) (closing : Char) (s : List Char) : Option (List Char) :=
  (after? opening s).bind (dropLast? closing)

/-! ## Laws -/

theorem after?_eq_some {opening s rest : List Char} :
    after? opening s = some rest ↔ s = opening ++ rest := by
  induction opening generalizing s with
  | nil => simp [after?, eq_comm]
  | cons p opening ih =>
    cases s with
    | nil => simp [after?]
    | cons c s =>
      by_cases h : p = c
      · simp [after?, h, ih]
      · simp [after?, h, Ne.symm h]

@[simp] theorem after?_append (opening rest : List Char) :
    after? opening (opening ++ rest) = some rest :=
  after?_eq_some.2 rfl

theorem isSome_after?_iff {opening s : List Char} :
    (after? opening s).isSome = true ↔ opening <+: s := by
  constructor
  · intro h
    obtain ⟨rest, hrest⟩ := Option.isSome_iff_exists.1 h
    exact ⟨rest, (after?_eq_some.1 hrest).symm⟩
  · rintro ⟨rest, rfl⟩
    simp

theorem eq_of_cutAt {c : Char} {s before after : List Char}
    (h : cutAt c s = some (before, after)) : s = before ++ c :: after ∧ c ∉ before := by
  induction s generalizing before with
  | nil => simp [cutAt] at h
  | cons d s ih =>
    unfold cutAt at h
    split at h
    · simp_all
    · next hd =>
      obtain ⟨⟨b, a⟩, hb, he⟩ := Option.map_eq_some_iff.1 h
      simp only [Prod.mk.injEq] at he
      obtain ⟨rfl, rfl⟩ := he
      obtain ⟨rfl, hn⟩ := ih hb
      exact ⟨rfl, by simp [Ne.symm hd, hn]⟩

theorem cutAt_eq_none {c : Char} {s : List Char} : cutAt c s = none ↔ c ∉ s := by
  induction s with
  | nil => simp [cutAt]
  | cons d s ih =>
    unfold cutAt
    split
    · simp_all
    · next hd => simp [ih, Ne.symm hd]

theorem eq_of_dropLast? {c : Char} {s before : List Char} (h : dropLast? c s = some before) :
    s = before ++ [c] := by
  unfold dropLast? at h
  split at h
  · next hlast =>
    obtain ⟨front, rfl⟩ := List.getLast?_eq_some_iff.1 hlast
    obtain rfl := Option.some.inj h
    rw [List.dropLast_concat]
  · cases h

end StepScript.Text
