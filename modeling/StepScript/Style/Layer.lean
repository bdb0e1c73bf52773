import StepScript.Style.Interval

/-!
# Style layers

Style intervals come in **layers**, one for each source of styles, so that replacing one layer
leaves the others alone.

Main statements: `get?_put_self` and `get?_put_of_ne` — a layer is what was last put there.
-/

set_option autoImplicit false

namespace StepScript

def syntaxLayer : Nat := 2

/-- Style layers, by ascending number. -/
abbrev Layers := List (Nat × List Interval)

namespace Layers

def get? (layer : Nat) (ls : Layers) : Option (List Interval) :=
  ls.lookup layer

def put (layer : Nat) (xs : List Interval) : Layers → Layers
  | [] => [(layer, xs)]
  | (n, ys) :: rest =>
    if layer < n then (layer, xs) :: (n, ys) :: rest
    else if layer = n then (n, xs) :: rest
    else (n, ys) :: put layer xs rest

def drop (layer : Nat) (ls : Layers) : Layers :=
  ls.filter fun (n, _) => n != layer

/-- All intervals that overlap a run of characters, layer by layer. -/
def within (start stop : Nat) (ls : Layers) : List Interval :=
  (ls.flatMap Prod.snd).filter fun i => i.overlaps ⟨start, stop, 0⟩

/-! ## Edits -/

inductive Edit where
  /-- The layer holds these intervals, in order. -/
  | replace (layer : Nat) (intervals : List Interval)
  /-- The layer is gone. -/
  | clear (layer : Nat)

def edit (ls : Layers) : Edit → Layers × Bool
  | .replace layer xs =>
    if get? layer ls = some (Interval.sort xs) then (ls, false)
    else (put layer (Interval.sort xs) ls, true)
  | .clear layer => (drop layer ls, (get? layer ls).isSome)

/-- Layers after some changes, and whether one of them changed anything. -/
def editAll (ls : Layers) : List Edit → Layers × Bool
  | [] => (ls, false)
  | e :: edits =>
    let (next, changed) := edit ls e
    let (last, more) := editAll next edits
    (last, changed || more)

/-! ## Laws -/

theorem get?_put_self (layer : Nat) (xs : List Interval) (ls : Layers) :
    get? layer (put layer xs ls) = some xs := by
  induction ls with
  | nil => simp [put, get?]
  | cons p rest ih =>
    obtain ⟨n, ys⟩ := p
    unfold put
    split
    · simp [get?]
    · split
      · next h => simp [get?, h]
      · next h =>
        have hb : (layer == n) = false := by simpa using h
        simpa [get?, List.lookup_cons, hb] using ih

theorem get?_put_of_ne {layer other : Nat} (xs : List Interval) (ls : Layers)
    (h : other ≠ layer) : get? other (put layer xs ls) = get? other ls := by
  have hl : (other == layer) = false := by simpa using h
  induction ls with
  | nil => simp [put, get?, List.lookup_cons, hl]
  | cons p rest ih =>
    obtain ⟨n, ys⟩ := p
    unfold put
    split
    · simp [get?, List.lookup_cons, hl]
    · split
      · next he => subst he; simp [get?, List.lookup_cons, hl]
      · cases hb : other == n
        · simpa [get?, List.lookup_cons, hb] using ih
        · simp [get?, List.lookup_cons, hb]

end Layers

end StepScript
