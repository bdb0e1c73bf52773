import Mathlib.Data.List.Basic
import StepScript.Placement

/-!
# Which boundary is nearest

A boundary stands in front of every block that is not dragged, and one behind the last block. The
nearest one is always one of the candidates, whatever the arithmetic of positions makes of the
distances; so nothing but the indices of the candidates is needed to say where a block can be
dropped. The slot that the dragged block has is left out in both forms: in front of it, since it
is no neighbour, and behind it.

Main statements:

* `indices_boundaries` — the indices of the boundaries;
* `mem_nearestIndex` — the nearest boundary is a candidate;
* `nearestIndex_eq_none_iff` — there is one unless no other block is shown.
-/

set_option autoImplicit false

namespace StepScript.Placement

variable {α : Type} (r : Ruler α) (y : α)

/-! ## The nearest of some boundaries -/

/-- The nearest boundary is the best one so far, or one of those that come. -/
theorem mem_nearest {best : Option (Boundary α)} {candidates : List (Boundary α)} {b : Boundary α}
    (h : nearest r y best candidates = some b) :
    b.1 ∈ best.map Prod.fst ∨ b.1 ∈ candidates.map Prod.fst := by
  induction candidates generalizing best with
  | nil =>
      obtain rfl : best = some b := h
      exact Or.inl rfl
  | cons candidate rest ih =>
      obtain ⟨i, p⟩ := candidate
      rw [List.map_cons, List.mem_cons]
      -- the new boundary takes the place of the best one, or does not
      cases best with
      | none =>
          rcases ih h with hb | hb
          · exact Or.inr (Or.inl (Option.some.inj hb).symm)
          · exact Or.inr (Or.inr hb)
      | some old =>
          obtain ⟨j, e⟩ := old
          rw [nearest] at h
          rcases ih h with hb | hb
          · split at hb
            · exact Or.inr (Or.inl (Option.some.inj hb).symm)
            · exact Or.inl hb
          · exact Or.inr (Or.inr hb)

/-- Once there is a boundary, there is a nearest one. -/
theorem nearest_some_ne_none (best : Boundary α) (candidates : List (Boundary α)) :
    nearest r y (some best) candidates ≠ none := by
  induction candidates generalizing best with
  | nil => exact Option.some_ne_none best
  | cons candidate rest ih => exact ih _

theorem nearest_none_eq_none_iff {candidates : List (Boundary α)} :
    nearest r y none candidates = none ↔ candidates = [] := by
  cases candidates with
  | nil => exact ⟨fun _ => rfl, fun _ => rfl⟩
  | cons candidate rest =>
      exact ⟨fun h => absurd h (nearest_some_ne_none r y _ rest), fun h => nomatch h⟩

/-! ## The indices of boundaries -/

theorem indices_indexed (extents : List (Extent α)) :
    (indexed extents).map Prod.fst = List.range extents.length := by
  rw [indexed, List.map_map, List.range_eq_range', ← List.zipIdx_map_snd 0 extents]
  rfl

theorem indices_boundariesAfter (count : Nat) (previous : Extent α)
    (blocks : List (Nat × Extent α)) :
    (boundariesAfter r count previous blocks).map Prod.fst = blocks.map Prod.fst ++ [count] := by
  induction blocks generalizing previous with
  | nil => rfl
  | cons block rest ih => rw [boundariesAfter, List.map_cons, ih, List.map_cons, List.cons_append]

/-- There is a boundary in front of every block, and one behind the last. -/
theorem indices_boundaries (count : Nat) {blocks : List (Nat × Extent α)} (h : blocks ≠ []) :
    (boundaries r count blocks).map Prod.fst = blocks.map Prod.fst ++ [count] := by
  cases blocks with
  | nil => exact absurd rfl h
  | cons block rest =>
      rw [boundaries, List.map_cons, indices_boundariesAfter, List.map_cons, List.cons_append]

/-! ## Dragged blocks -/

variable {extents : List (Extent α)} {dragged : Nat}

def others (extents : List (Extent α)) (dragged : Nat) : List (Nat × Extent α) :=
  (indexed extents).filter fun (i, _) => some dragged != some i

/-- The boundaries at which a block can be dropped that has the index `behind` after it. -/
def candidates (extents : List (Extent α)) (dragged behind : Nat) : List (Boundary α) :=
  (boundaries r extents.length (others extents dragged)).filter fun (i, _) => some behind != some i

theorem nearestIndex_some (dragged : Nat) :
    nearestIndex r extents y (some dragged) =
      if (others extents dragged).isEmpty then some none
      else (nextIndex? dragged).map fun behind =>
        (nearest r y none (candidates r extents dragged behind)).map Prod.fst := rfl

/-- Within the range of indices there is an answer. -/
theorem nearestIndex_some_of_lt (hd : dragged < extents.length)
    (hsize : extents.length < UInt64.size) :
    nearestIndex r extents y (some dragged) =
      some (if (others extents dragged).isEmpty then none
        else (nearest r y none (candidates r extents dragged (dragged + 1))).map Prod.fst) := by
  rw [nearestIndex_some, nextIndex?_of_lt (by omega)]
  split <;> rfl

theorem mem_indices_others {i : Nat} :
    i ∈ (others extents dragged).map Prod.fst ↔ i < extents.length ∧ i ≠ dragged := by
  have hrange : i ∈ (indexed extents).map Prod.fst ↔ i < extents.length := by
    rw [indices_indexed, List.mem_range]
  rw [← hrange, others, List.mem_map, List.mem_map]
  constructor
  · rintro ⟨block, hblock, rfl⟩
    obtain ⟨hmem, hne⟩ := List.mem_filter.1 hblock
    refine ⟨⟨block, hmem, rfl⟩, ?_⟩
    rintro rfl
    simp at hne
  · rintro ⟨⟨block, hmem, rfl⟩, hne⟩
    exact ⟨block, List.mem_filter.2 ⟨hmem, by simpa using Ne.symm hne⟩, rfl⟩

theorem isEmpty_others_iff_forall :
    (others extents dragged).isEmpty = true ↔ ∀ i, ¬ (i < extents.length ∧ i ≠ dragged) := by
  rw [List.isEmpty_iff, ← List.map_eq_nil_iff (f := Prod.fst), List.eq_nil_iff_forall_not_mem]
  exact forall_congr' fun i => not_congr mem_indices_others

/-- The last block of a list can be dragged to no place, if there is no other one. -/
theorem isEmpty_others_iff (h : dragged < extents.length) :
    (others extents dragged).isEmpty = true ↔ extents.length = 1 := by
  rw [isEmpty_others_iff_forall]
  constructor
  · intro hall
    -- of two blocks, the first or the second is another one than the dragged one
    by_contra hone
    by_cases hzero : dragged = 0
    · exact hall 1 ⟨by omega, by omega⟩
    · exact hall 0 ⟨by omega, by omega⟩
  · intro hone i hi
    omega

/-- Where a block can be dropped: at every boundary but the two of its own slot. -/
theorem mem_indices_candidates (hd : dragged < extents.length)
    (hothers : (others extents dragged).isEmpty = false) {i : Nat} :
    i ∈ (candidates r extents dragged (dragged + 1)).map Prod.fst ↔
      i ≤ extents.length ∧ i ≠ dragged ∧ i ≠ dragged + 1 := by
  have hne : others extents dragged ≠ [] := by
    rintro hnil
    rw [hnil] at hothers
    cases hothers
  have hindices : i ∈ (boundaries r extents.length (others extents dragged)).map Prod.fst ↔
      i ≤ extents.length ∧ i ≠ dragged := by
    rw [indices_boundaries r _ hne, List.mem_append, mem_indices_others, List.mem_singleton]
    omega
  rw [← and_assoc, ← hindices, candidates, List.mem_map, List.mem_map]
  constructor
  · rintro ⟨b, hb, rfl⟩
    obtain ⟨hmem, hkept⟩ := List.mem_filter.1 hb
    refine ⟨⟨b, hmem, rfl⟩, fun heq => ?_⟩
    simp [heq] at hkept
  · rintro ⟨⟨b, hmem, rfl⟩, hkept⟩
    exact ⟨b, List.mem_filter.2 ⟨hmem, by simpa using Ne.symm hkept⟩, rfl⟩

/-- The nearest boundary is none of the two boundaries of the slot that the dragged block has. -/
theorem mem_nearestIndex {b : Nat} (hd : dragged < extents.length)
    (hsize : extents.length < UInt64.size)
    (h : nearestIndex r extents y (some dragged) = some (some b)) :
    b ≤ extents.length ∧ b ≠ dragged ∧ b ≠ dragged + 1 := by
  rw [nearestIndex_some_of_lt r y hd hsize] at h
  cases hothers : (others extents dragged).isEmpty with
  | true => simp [hothers] at h
  | false =>
      rw [hothers, if_neg Bool.false_ne_true, Option.some.injEq] at h
      obtain ⟨boundary, hnearest, rfl⟩ := Option.map_eq_some_iff.1 h
      rcases mem_nearest r y hnearest with hbest | hmem
      · cases hbest
      · exact (mem_indices_candidates r hd hothers).1 hmem

/-- A dragged block has a nearest boundary exactly if it is not the only block. -/
theorem nearestIndex_eq_none_iff (hd : dragged < extents.length)
    (hsize : extents.length < UInt64.size) :
    nearestIndex r extents y (some dragged) = some none ↔ extents.length = 1 := by
  rw [← isEmpty_others_iff hd, nearestIndex_some_of_lt r y hd hsize, Option.some.injEq]
  cases hothers : (others extents dragged).isEmpty with
  | true => simp
  | false =>
      rw [if_neg Bool.false_ne_true, Option.map_eq_none_iff, nearest_none_eq_none_iff]
      refine ⟨fun hnil => ?_, fun h => nomatch h⟩
      -- there are two blocks, and the outer boundaries are not both at the slot of the dragged one
      have hone := (isEmpty_others_iff hd).not.1 (by simp [hothers])
      have hmem := fun i => mem_indices_candidates r hd hothers (i := i)
      rw [hnil] at hmem
      by_cases hzero : dragged = 0
      · exact absurd ((hmem extents.length).2 ⟨by omega, by omega, by omega⟩) List.not_mem_nil
      · exact absurd ((hmem 0).2 ⟨by omega, by omega, by omega⟩) List.not_mem_nil

/-- The index that a block has after it is taken out and put at a boundary. -/
def landing (dragged boundary : Nat) : Nat :=
  if boundary < dragged then boundary else boundary - 1

/-- At a boundary other than the one in front of it, a block lands where a move to the block behind
the boundary puts it. -/
theorem landing_eq {b : Nat} (h : b ≠ dragged) :
    landing dragged b = if dragged < b then b - 1 else b := by
  unfold landing
  split <;> split <;> omega

/-- At a boundary that is none of its slot, a block gets another index. -/
theorem landing_ne {b : Nat} (h : b ≠ dragged) (h' : b ≠ dragged + 1) :
    landing dragged b ≠ dragged := by
  unfold landing
  split <;> omega

end StepScript.Placement
