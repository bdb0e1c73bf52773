import StepScript.Index

/-!
# Where a block would be dropped

Blocks are shown one below the other. While a pointer moves over them, the **boundary** nearest to
it is the place of a drop: the top of the first block, the middle between two neighbours, or the
bottom of the last block. While a block is dragged it is not counted as a neighbour, and the place
behind it is no candidate.

The choice is made over any arithmetic of positions, of which the screen's single-precision numbers
are one.
-/

set_option autoImplicit false

namespace StepScript

/-- The arithmetic that a choice of a boundary needs. -/
structure Ruler (α : Type) where
  /-- The point half way between two others. -/
  middle : α → α → α
  /-- How far two points are apart. -/
  distance : α → α → α
  /-- Whether the first distance is the smaller one. -/
  closer : α → α → Bool

/-- Single-precision positions. -/
def Ruler.single : Ruler Float32 where
  middle a b := (a + b) / 2.0
  distance a b := (a - b).abs
  closer a b := a < b

structure Extent (α : Type) where
  top : α
  bottom : α

namespace Placement

variable {α : Type}

/-- A boundary: the index of the block behind it, and its position. -/
abbrev Boundary (α : Type) := Nat × α

/-- The boundaries behind a block: one in front of each further block, and one behind the last
block, whose index is the number `count` of all blocks. -/
def boundariesAfter (r : Ruler α) (count : Nat) (previous : Extent α) :
    List (Nat × Extent α) → List (Boundary α)
  | [] => [(count, previous.bottom)]
  | (i, e) :: rest => (i, r.middle previous.bottom e.top) :: boundariesAfter r count e rest

def boundaries (r : Ruler α) (count : Nat) : List (Nat × Extent α) → List (Boundary α)
  | [] => []
  | (i, e) :: rest => (i, e.top) :: boundariesAfter r count e rest

/-- The boundary that is nearest to a point, the first one among equals. -/
def nearest (r : Ruler α) (y : α) (best : Option (Boundary α)) :
    List (Boundary α) → Option (Boundary α)
  | [] => best
  | (i, p) :: rest =>
    let d := r.distance y p
    match best with
    | none => nearest r y (some (i, d)) rest
    | some (j, e) => nearest r y (some (if r.closer d e then (i, d) else (j, e))) rest

def indexed (extents : List (Extent α)) : List (Nat × Extent α) :=
  extents.zipIdx.map fun (e, i) => (i, e)

/-- The index of the nearest boundary of the shown blocks, of which the one with the index `skipped`
is left out. -/
def nearestShown (r : Ruler α) (count : Nat) (shown : List (Nat × Extent α)) (y : α)
    (skipped : Option Nat) : Option Nat :=
  let candidates := (boundaries r count shown).filter fun (i, _) => skipped != some i
  (nearest r y none candidates).map Prod.fst

/-- The index of the block in front of which a drop at `y` would land, while the block `dragging` is
dragged. There is none if no other block is shown.

If one is shown, the index behind the dragged block is asked for; where it is beyond the range, the
choice breaks off without an answer. -/
def nearestIndex (r : Ruler α) (extents : List (Extent α)) (y : α) (dragging : Option Nat) :
    Option (Option Nat) :=
  let shown := (indexed extents).filter fun (i, _) => dragging != some i
  if shown.isEmpty then some (if dragging.isNone then some 0 else none)
  else match dragging with
    | none => some (nearestShown r extents.length shown y none)
    | some d => (nextIndex? d).map fun behind =>
      nearestShown r extents.length shown y (some behind)

end Placement

end StepScript
