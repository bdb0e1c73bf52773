import StepScript.Proofs.Boundaries
import StepScript.Proofs.EditorEdits

/-!
# The range of indices

An index is a word, and any word may be given as the index of a block, also that of a block that is
not there. Both a drop behind the last block and the choice of a boundary ask for the index behind
the block, before it is known that the block is there. Behind the last word there is none, and the
program breaks off.

With every other index, a block that is not there can be dropped without changing anything, and to
drag it makes no difference to the nearest boundary.

Main statements:

* `nextIndex?_toNat` — where a sum goes beyond the range;
* `Editor.dropChange_of_count_le` — a drop of a block that is not there;
* `Editor.dropBlock_eq_overflow_iff`, `Placement.nearestIndex_eq_overflow_iff` — who breaks off;
* `Placement.nearestIndex_of_length_le` — a boundary while such a block is dragged;
* `indexRange` — what becomes of any word as an index.
-/

set_option autoImplicit false

namespace StepScript

/-! ## Sums -/

theorem nextIndex?_eq_none_iff (i : UInt64) : nextIndex? i.toNat = none ↔ i.toNat = lastIndex := by
  have hlt := i.toNat_lt_size
  unfold nextIndex? lastIndex
  split
  · exact iff_of_false (Option.some_ne_none _) (by omega)
  · exact iff_of_true rfl (by omega)

theorem nextIndex?_of_ne_last {i : UInt64} (h : i.toNat ≠ lastIndex) :
    nextIndex? i.toNat = some (i.toNat + 1) := by
  have hlt := i.toNat_lt_size
  unfold lastIndex at h
  exact nextIndex?_of_lt (by omega)

/-- The sum of words wraps around behind the last index, and is the checked one behind every
other. -/
theorem nextIndex?_toNat (i : UInt64) :
    nextIndex? i.toNat = if i.toNat = lastIndex then none else some (i + 1).toNat := by
  split
  · next hlast => exact (nextIndex?_eq_none_iff i).2 hlast
  · next hlast =>
    have hlt := i.toNat_lt_size
    unfold lastIndex at hlast
    have hfits : i.toNat + 1 < UInt64.size := by omega
    have hexact : (i + 1).toNat = i.toNat + 1 := Nat.mod_eq_of_lt hfits
    rw [hexact, nextIndex?_of_lt hfits]

/-! ## Drops of blocks that are not there -/

variable {lang : Language} {script : List Char} {start boundary : Nat}

theorem Script.reorder_of_count_le (h : count lang script ≤ start) (target : Nat) :
    reorder lang script start target = none := by
  rw [reorder, List.getElem?_eq_none_iff.2 h]

theorem Script.remove_ne_overflow (lang : Language) (script : List Char) (index : Nat) :
    remove lang script index ≠ .error .overflow := by
  rw [remove, commandLine]
  cases (commandLines lang script)[index]? with
  | none => simp
  | some l => simp

namespace Editor

/-- A drop breaks off exactly if it asks for an index beyond the range. -/
theorem dropChange_eq_overflow_iff :
    dropChange lang script start boundary = .error .overflow ↔
      Script.count lang script ≤ boundary ∧ nextIndex? start = none := by
  refine ⟨fun h => ?_, fun ⟨hle, hnext⟩ => dropChange_eq_overflow hle hnext⟩
  rw [dropChange] at h
  split at h
  · cases h
  · next hfront =>
    split at h
    · next hnext => exact ⟨Nat.not_lt.1 hfront, hnext⟩
    · split at h
      · cases h
      · rw [moveLast] at h
        split at h
        · cases h
        · split at h
          · next herr =>
            cases h
            exact absurd herr (Script.remove_ne_overflow lang script start)
          · cases h

/-- **A drop of a block that is not there** is no change, unless its index is the last one and it is
dropped behind the last block. -/
theorem dropChange_of_count_le {i : UInt64} (h : Script.count lang script ≤ i.toNat)
    (boundary : Nat) :
    dropChange lang script i.toNat boundary =
      if Script.count lang script ≤ boundary ∧ i.toNat = lastIndex then .error .overflow
      else .ok none := by
  by_cases hfront : boundary < Script.count lang script
  · -- in front of a block, the index is looked up before anything is added to it
    rw [dropChange_of_lt hfront, if_neg (by omega), Script.reorder_of_count_le h]
  · by_cases hlast : i.toNat = lastIndex
    · rw [if_pos ⟨Nat.not_lt.1 hfront, hlast⟩]
      exact dropChange_eq_overflow (Nat.not_lt.1 hfront) ((nextIndex?_eq_none_iff i).2 hlast)
    · have hnext := nextIndex?_of_ne_last hlast
      rw [if_neg fun h => hlast h.2, dropChange, if_neg hfront, hnext]
      exact if_pos (Nat.le_succ_of_le h)

variable (e : Editor)

/-- **Who breaks off at a drop:** an editor that is free to edit, whose block with the last index is
dropped behind the last block. -/
theorem dropBlock_eq_overflow_iff (i : UInt64) (boundary : Nat) :
    (e.dropBlock i.toNat boundary).2 = .error .overflow ↔
      e.locked = false ∧ e.slotTaken = false ∧
        Script.count e.language e.content ≤ boundary ∧ i.toNat = lastIndex := by
  rw [← nextIndex?_eq_none_iff, ← dropChange_eq_overflow_iff, dropBlock, blockEdit_eq]
  cases e.locked with
  | true => simp
  | false =>
      cases e.slotTaken with
      | true => simp
      | false =>
          rw [if_neg Bool.false_ne_true, if_neg Bool.false_ne_true]
          -- nothing refuses the drop, so that its answer is what it finds for the script
          cases dropChange e.language e.content i.toNat boundary with
          | error err => simp
          | ok found => cases found <;> simp

/-- A block that is not there leaves the editor as it is, wherever it is dropped. -/
theorem dropBlock_of_count_le {e : Editor} {i : UInt64} (hlocked : e.locked = false)
    (habsent : Script.count e.language e.content ≤ i.toNat) (boundary : Nat) :
    e.dropBlock i.toNat boundary =
      (e, if e.slotTaken then .error .busy
        else if Script.count e.language e.content ≤ boundary ∧ i.toNat = lastIndex
        then .error .overflow else .ok false) := by
  rw [dropBlock, blockEdit_eq, dropChange_of_count_le habsent, hlocked, if_neg Bool.false_ne_true]
  cases e.slotTaken with
  | true => rfl
  | false =>
      rw [if_neg Bool.false_ne_true, if_neg Bool.false_ne_true]
      by_cases hlast : Script.count e.language e.content ≤ boundary ∧ i.toNat = lastIndex
      · rw [if_pos hlast, if_pos hlast]
      · rw [if_neg hlast, if_neg hlast]

end Editor

/-! ## Boundaries while a block is dragged that is not there -/

namespace Placement

variable {α : Type} (r : Ruler α) {extents : List (Extent α)} (y : α)

/-- **Who breaks off at the choice of a boundary:** the one that drags the block with the last index
while another block is shown. -/
theorem nearestIndex_eq_overflow_iff (extents : List (Extent α)) (i : UInt64) :
    nearestIndex r extents y (some i.toNat) = none ↔
      (∃ j, j < extents.length ∧ j ≠ i.toNat) ∧ i.toNat = lastIndex := by
  have hothers : (others extents i.toNat).isEmpty = false ↔
      ∃ j, j < extents.length ∧ j ≠ i.toNat := by
    rw [← Bool.not_eq_true, isEmpty_others_iff_forall]
    simp only [not_forall, not_not]
  rw [← hothers, ← nextIndex?_eq_none_iff, nearestIndex_some]
  cases (others extents i.toNat).isEmpty <;> simp

/-- The boundaries of some blocks, none of which is dragged. -/
def allBoundaries (extents : List (Extent α)) : List (Boundary α) :=
  boundaries r extents.length (indexed extents)

theorem others_of_length_le {dragged : Nat} (h : extents.length ≤ dragged) :
    others extents dragged = indexed extents := by
  refine List.filter_eq_self.2 fun block hblock => ?_
  have hmem := List.mem_map_of_mem (f := Prod.fst) hblock
  rw [indices_indexed, List.mem_range] at hmem
  simp only [bne_iff_ne, ne_eq, Option.some.injEq]
  omega

theorem indexed_ne_nil (h : extents ≠ []) : indexed extents ≠ [] := by
  intro hnil
  have hlen := congrArg (List.length ∘ List.map Prod.fst) hnil
  simp [indices_indexed, h] at hlen

/-- No boundary has an index beyond the number of the blocks. -/
theorem filter_allBoundaries_of_length_lt (h : extents ≠ []) {j : Nat} (hj : extents.length < j) :
    (allBoundaries r extents).filter (fun (i, _) => some j != some i) =
      allBoundaries r extents := by
  refine List.filter_eq_self.2 fun b hb => ?_
  have hmem := List.mem_map_of_mem (f := Prod.fst) hb
  rw [allBoundaries, indices_boundaries r _ (indexed_ne_nil h), indices_indexed, ← List.range_succ,
    List.mem_range] at hmem
  simp only [bne_iff_ne, ne_eq, Option.some.injEq]
  omega

/-- Without a dragged block, nothing is left out and nothing is added to an index. -/
theorem nearestIndex_none (h : extents ≠ []) :
    nearestIndex r extents y none =
      some ((nearest r y none (allBoundaries r extents)).map Prod.fst) := by
  have hall : ∀ {β : Type} (l : List (Nat × β)),
      l.filter (fun (i, _) => (none : Option Nat) != some i) = l :=
    fun l => List.filter_eq_self.2 fun _ _ => rfl
  have hshown : (indexed extents).isEmpty = false := by simpa using indexed_ne_nil h
  simp only [nearestIndex, nearestShown, hall, hshown, Bool.false_eq_true, if_false]
  rfl

/-- **The nearest boundary while a block is dragged that is not there** is the one that is nearest
without it, unless its index is the last one. -/
theorem nearestIndex_of_length_le (h : extents ≠ []) {i : UInt64} (hi : extents.length ≤ i.toNat) :
    nearestIndex r extents y (some i.toNat) =
      if i.toNat = lastIndex then none else nearestIndex r extents y none := by
  have hshown : (indexed extents).isEmpty = false := by simpa using indexed_ne_nil h
  rw [nearestIndex_some, others_of_length_le hi, hshown, if_neg Bool.false_ne_true]
  split
  · next hlast => rw [(nextIndex?_eq_none_iff i).2 hlast, Option.map_none]
  · next hlast =>
    -- every block is shown, and no boundary has the index behind `i`
    have hkept := filter_allBoundaries_of_length_lt r h (Nat.lt_succ_of_le hi)
    rw [nextIndex?_of_ne_last hlast, Option.map_some, nearestIndex_none r y h, candidates,
      others_of_length_le hi]
    exact congrArg (fun l => some ((nearest r y none l).map Prod.fst)) hkept

end Placement

/-! ## Any word as an index -/

open Placement in
/-- What is promised of a word as the index of a block. -/
structure IndexRange (i : UInt64) : Prop where
  /-- The sum of words is exact, unless the index is the last one. -/
  nextIndex?_eq : nextIndex? i.toNat = if i.toNat = lastIndex then none else some (i + 1).toNat
  /-- A drop goes beyond the range exactly if the index is the last one, the block is dropped behind
  the last block, and nothing refuses the drop. -/
  dropBlock_overflow_iff : ∀ (e : Editor) (boundary : Nat),
    (e.dropBlock i.toNat boundary).2 = .error .overflow ↔
      e.locked = false ∧ e.slotTaken = false ∧
        Script.count e.language e.content ≤ boundary ∧ i.toNat = lastIndex
  /-- A drop of a block that is not there changes nothing, and says so unless the slot is taken or
  the drop goes beyond the range. -/
  dropBlock_eq : ∀ e : Editor, e.locked = false → Script.count e.language e.content ≤ i.toNat →
    ∀ boundary, e.dropBlock i.toNat boundary =
      (e, if e.slotTaken then .error .busy
        else if Script.count e.language e.content ≤ boundary ∧ i.toNat = lastIndex
        then .error .overflow else .ok false)
  /-- The choice of a boundary goes beyond the range exactly if the index is the last one and another
  block is shown. -/
  nearestIndex_overflow_iff : ∀ {α : Type} (r : Ruler α) (extents : List (Extent α)) (y : α),
    nearestIndex r extents y (some i.toNat) = none ↔
      (∃ j, j < extents.length ∧ j ≠ i.toNat) ∧ i.toNat = lastIndex
  /-- While a block is dragged that is not there, the nearest boundary is the one that is nearest
  without it, for which there is always an answer, unless the index is the last one. -/
  nearestIndex_eq : ∀ {α : Type} (r : Ruler α) (extents : List (Extent α)) (y : α),
    extents ≠ [] → extents.length ≤ i.toNat →
      nearestIndex r extents y none =
        some ((nearest r y none (allBoundaries r extents)).map Prod.fst) ∧
      nearestIndex r extents y (some i.toNat) =
        if i.toNat = lastIndex then none else nearestIndex r extents y none

/-- **Every word can be given as an index**, and a sum goes beyond the range for the last one
alone. -/
theorem indexRange (i : UInt64) : IndexRange i where
  nextIndex?_eq := nextIndex?_toNat i
  dropBlock_overflow_iff e := e.dropBlock_eq_overflow_iff i
  dropBlock_eq _ := Editor.dropBlock_of_count_le
  nearestIndex_overflow_iff r extents y := Placement.nearestIndex_eq_overflow_iff r y extents i
  nearestIndex_eq r _ y hne hlen :=
    ⟨Placement.nearestIndex_none r y hne, Placement.nearestIndex_of_length_le r y hne hlen⟩

/-- The last index but one, in a script with one command. -/
theorem indexRange_last_but_one :
    let i : UInt64 := 18446744073709551614
    let r : Ruler Nat := ⟨fun a b => (a + b) / 2, fun a b => (a - b) + (b - a), fun a b => a < b⟩
    let extents : List (Extent Nat) := [⟨0, 10⟩, ⟨20, 30⟩]
    let e := Editor.ofBuffer .standard (.create .standard "a.tks".toList "步骤:\n返回".toList)
    IndexRange i ∧ e.locked = false ∧ Script.count e.language e.content = 1 ∧
      e.dropBlock i.toNat lastIndex = (e, .ok false) ∧
      Placement.nearestIndex r extents 0 (some i.toNat) = some (some 0) := by
  intro i r extents e
  have hrange := indexRange i
  have hcount : Script.count e.language e.content = 1 := by decide
  have hlast : i.toNat ≠ lastIndex := by decide
  refine ⟨hrange, by decide, hcount, ?_, ?_⟩
  · rw [hrange.dropBlock_eq e (by decide) (by rw [hcount]; decide), if_neg (by decide),
      if_neg fun h => hlast h.2]
  · rw [(hrange.nearestIndex_eq r extents 0 (by simp [extents]) (by decide)).2, if_neg hlast]
    decide

/-- A block that is not there, whose index is the last one: the program breaks off where it is
dropped behind the last block, and where a boundary is chosen for it. -/
theorem not_unchanged_last :
    let i : UInt64 := 18446744073709551615
    let r : Ruler Nat := ⟨fun a b => (a + b) / 2, fun a b => (a - b) + (b - a), fun a b => a < b⟩
    let extents : List (Extent Nat) := [⟨0, 10⟩, ⟨20, 30⟩]
    let e := Editor.ofBuffer .standard
      (.create .standard "a.tks".toList "步骤:\n返回\n等待 [1]".toList)
    e.locked = false ∧ e.slotTaken = false ∧ Script.count e.language e.content = 2 ∧
      (e.dropBlock i.toNat 0).2 = .ok false ∧
      (e.dropBlock i.toNat 2).2 = .error .overflow ∧
      Placement.nearestIndex r extents 0 none = some (some 0) ∧
      Placement.nearestIndex r extents 0 (some i.toNat) = none := by
  intro i r extents e
  exact ⟨by decide, by decide, by decide, by decide, by decide, by decide, by decide⟩

end StepScript
