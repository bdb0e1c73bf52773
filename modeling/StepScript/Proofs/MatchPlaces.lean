import StepScript.Pattern.Search

/-!
# Where matches are found

A search walks over a text and remembers places on its way. It starts at a place of the text, and a
step takes one character or none, so that no place behind the end of the text is ever remembered.
Nothing is said here of what a pattern matches.

Main statements:

* `Thread.inText_of_mem_next`, `Thread.bounded_of_next` — a step stays in the text;
* `bounded_of_run` — a search at one place stays in the text;
* `Matcher.le_of_mem_matches` — the ranges of all groups of all matches lie in the text.
-/

set_option autoImplicit false

namespace StepScript.Pattern

/-- Slots that remember no place behind the end of a text. -/
def Slots.Bounded (length : Nat) (slots : Slots) : Prop :=
  ∀ p ∈ slots, p.2 ≤ length

/-- The range of a group lies in the text if the remembered places do. -/
theorem Slots.Bounded.groupRange? {length : Nat} {slots : Slots} (h : slots.Bounded length)
    {n : Nat} {range : Nat × Nat} (hrange : groupRange? n slots = some range) :
    range.1 ≤ length ∧ range.2 ≤ length := by
  have hlookup : ∀ {slot place : Nat}, slots.lookup slot = some place → place ≤ length := by
    intro slot place hplace
    obtain ⟨before, after, rfl, -⟩ := List.lookup_eq_some_iff.1 hplace
    exact h (slot, place) (by simp)
  unfold Pattern.groupRange? at hrange
  split at hrange
  · next start stop hstart hstop =>
    obtain rfl := Option.some.inj hrange
    exact ⟨hlookup hstart, hlookup hstop⟩
  · cases hrange

/-! ## One step -/

namespace Thread

/-- A point of a search through a text of some length. -/
structure InText (length : Nat) (t : Thread) : Prop where
  place_add : t.place + t.rest.length = length
  bounded : t.slots.Bounded length

variable {p : Program} {length : Nat} {t : Thread}

/-- What a match remembers lies in the text. -/
theorem bounded_of_next (h : t.InText length) {slots : Slots} (hnext : t.next p = .inl slots) :
    slots.Bounded length := by
  unfold next at hnext
  split at hnext
  case h_2 => exact Sum.inl.inj hnext ▸ h.bounded
  case h_7 => split at hnext <;> cases hnext
  all_goals cases hnext

/-- A thread that follows one in the text is in the text. -/
theorem inText_of_mem_next (h : t.InText length) {more : List Thread} (hnext : t.next p = .inr more)
    {t' : Thread} (ht : t' ∈ more) : t'.InText length := by
  -- only `save` remembers a place, and only `char` takes a character
  have hsame : ∀ inst, ({ t with inst } : Thread).InText length := fun _ =>
    ⟨h.place_add, h.bounded⟩
  have hplace := h.place_add
  rw [next] at hnext
  cases hinst : p[t.inst]? with
  | none =>
      rw [hinst] at hnext
      obtain rfl := Sum.inr.inj hnext
      cases ht
  | some i =>
      rw [hinst] at hnext
      cases i with
      | accept => cases hnext
      | split first second =>
          obtain rfl := Sum.inr.inj hnext
          rcases List.mem_cons.1 ht with rfl | ht
          · exact hsame first
          · exact List.mem_singleton.1 ht ▸ hsame second
      | save slot next =>
          obtain rfl := Sum.inr.inj hnext
          obtain rfl := List.mem_singleton.1 ht
          have hbound : t.place ≤ length := hplace ▸ Nat.le_add_right _ _
          exact ⟨hplace, List.forall_mem_cons.2 ⟨hbound, h.bounded⟩⟩
      | textStart next =>
          obtain rfl := Sum.inr.inj hnext
          exact List.mem_singleton.1 (List.mem_ite_nil_right.1 ht).2 ▸ hsame next
      | textEnd next =>
          obtain rfl := Sum.inr.inj hnext
          exact List.mem_singleton.1 (List.mem_ite_nil_right.1 ht).2 ▸ hsame next
      | char set next =>
          cases hrest : t.rest with
          | nil =>
              simp only [hrest] at hnext
              obtain rfl := Sum.inr.inj hnext
              cases ht
          | cons c rest =>
              simp only [hrest] at hnext
              obtain rfl := Sum.inr.inj hnext
              obtain rfl := List.mem_singleton.1 (List.mem_ite_nil_right.1 ht).2
              rw [hrest, List.length_cons] at hplace
              exact ⟨by show t.place + 1 + rest.length = length; omega, h.bounded⟩

end Thread

/-! ## One search -/

variable {start : Nat} {p : Program} {length : Nat} {slots : Slots}

/-- A search from threads in the text stays in the text. -/
theorem bounded_of_run {fuel : Nat} {seen : Array Bool} {threads : List Thread}
    (h : ∀ t ∈ threads, t.InText length) (hrun : run p fuel seen threads = some slots) :
    slots.Bounded length := by
  induction fuel generalizing seen threads with
  | zero => cases threads <;> simp [run] at hrun
  | succ fuel ih =>
      cases threads with
      | nil => simp [run] at hrun
      | cons t threads =>
          rw [List.forall_mem_cons] at h
          simp only [run] at hrun
          split at hrun
          · exact ih h.2 hrun
          · split at hrun
            · next found hnext =>
              exact Option.some.inj hrun ▸ Thread.bounded_of_next h.1 hnext
            · next more hnext =>
              refine ih (List.forall_mem_append.2 ⟨fun t' ht' => ?_, h.2⟩) hrun
              exact Thread.inText_of_mem_next h.1 hnext ht'

theorem bounded_of_matchAt {place : Nat} {rest : List Char} (h : place + rest.length = length)
    (hmatch : matchAt start p length place rest = some slots) : slots.Bounded length := by
  refine bounded_of_run ?_ hmatch
  intro t ht
  obtain rfl := List.mem_singleton.1 ht
  exact ⟨h, fun _ hmem => absurd hmem List.not_mem_nil⟩

theorem bounded_of_searchFrom {place : Nat} {rest : List Char} (h : place + rest.length = length)
    (hsearch : searchFrom start p length place rest = some slots) : slots.Bounded length := by
  induction rest generalizing place with
  | nil => exact bounded_of_matchAt h hsearch
  | cons c rest ih =>
      rw [searchFrom] at hsearch
      cases hhere : matchAt start p length place (c :: rest) with
      | some found =>
          rw [hhere] at hsearch
          exact Option.some.inj hsearch ▸ bounded_of_matchAt h hhere
      | none =>
          rw [hhere] at hsearch
          refine ih ?_ hsearch
          rw [← h, List.length_cons]
          omega

/-! ## All matches -/

namespace Matcher

variable {m : Matcher} {s : List Char}

theorem bounded_of_search {place : Nat} (h : m.search s place = some slots) :
    slots.Bounded s.length := by
  unfold search at h
  split at h
  · cases h
  · refine bounded_of_searchFrom ?_ h
    rw [List.length_drop]
    omega

theorem bounded_of_searchAfter {place : Nat} {last : Option Nat}
    (h : m.searchAfter s place last = some slots) : slots.Bounded s.length := by
  unfold searchAfter at h
  split at h
  · cases h
  · next found hfound =>
    split at h
    · split at h
      · exact bounded_of_search h
      · exact Option.some.inj h ▸ bounded_of_search hfound
    · cases h

theorem bounded_of_mem_matchesFrom {fuel place : Nat} {last : Option Nat}
    (h : slots ∈ m.matchesFrom s fuel place last) : slots.Bounded s.length := by
  induction fuel generalizing place last with
  | zero => cases h
  | succ fuel ih =>
      unfold matchesFrom at h
      split at h
      · cases h
      · next found hfound =>
        split at h
        · rcases List.mem_cons.1 h with rfl | h
          · exact bounded_of_searchAfter hfound
          · exact ih h
        · cases h

/-- **Where matches are found.** Every group of every match starts and stops in the text. -/
theorem le_of_mem_matches (h : slots ∈ m.matches s) {n : Nat} {range : Nat × Nat}
    (hrange : groupRange? n slots = some range) : range.1 ≤ s.length ∧ range.2 ≤ s.length :=
  (bounded_of_mem_matchesFrom h).groupRange? hrange

end Matcher

end StepScript.Pattern
