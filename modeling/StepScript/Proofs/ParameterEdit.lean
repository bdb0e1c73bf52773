import StepScript.Command.Edit
import StepScript.Proofs.ParameterList

/-!
# Editing one parameter of a command

What `Command.withParam` makes of a command: the keyword and the line stay, and every parameter is
one of the command, the default of a definition or the new value. A property of parameters that all
of these have is therefore kept.

Main statements:

* `Command.withParam_eq_ok` — the two ways in which an edit succeeds;
* `Command.forall_mem_withParam` — what holds of the parameters of an edited command.
-/

set_option autoImplicit false

namespace StepScript

open Text

/-! ## Defaults -/

/-- Every default of a table is well formed, and holds no line feed. -/
theorem Keyword.wellFormed_default (k : Keyword) :
    ∀ d ∈ k.params, ∀ s ∈ d.default,
      (Parameter.ofText s).WellFormed ∧ '\n' ∉ (Parameter.ofText s).raw := by
  cases k <;> decide

theorem mem_defaultsOf {defs : List ParamDef} {gap : List Parameter} {p : Parameter}
    (h : defaultsOf defs = .ok gap) (hp : p ∈ gap) :
    ∃ d ∈ defs, ∃ s ∈ d.default, p = Parameter.ofText s := by
  induction defs generalizing gap with
  | nil =>
      obtain rfl : [] = gap := by simpa [defaultsOf] using h
      simp at hp
  | cons d defs ih =>
      rw [defaultsOf] at h
      cases hd : d.default with
      | none => simp [hd] at h
      | some s =>
          cases hrest : defaultsOf defs with
          | error e => simp [hd, hrest] at h
          | ok rest =>
              obtain rfl : Parameter.ofText s :: rest = gap := by simpa [hd, hrest] using h
              rcases List.mem_cons.1 hp with rfl | hp
              · exact ⟨d, List.mem_cons_self, s, hd, rfl⟩
              · obtain ⟨d', hd', s', hs', heq⟩ := ih hrest hp
                exact ⟨d', List.mem_cons_of_mem _ hd', s', hs', heq⟩

namespace Command

variable {c c' : Command} {name value : List Char}

/-! ## Successful edits -/

/-- A command with a value at a position, where `gap` fills what is missing in front of it. -/
def placeParam (c : Command) (index : Nat) (gap : List Parameter) (p : Parameter) : Command :=
  if index < (c.params ++ gap).length then { c with params := (c.params ++ gap).set index p }
  else { c with params := c.params ++ gap ++ [p] }

/-- An edit succeeds by dropping the parameters from a position on, or by placing a value. -/
theorem withParam_eq_ok (h : c.withParam name value = .ok c') :
    (trim value = [] ∧ ∃ index, c' = { c with params := c.params.take index }) ∨
      trim value ≠ [] ∧ fitsList (trim value) = true ∧ ∃ index gap,
        defaultsOf ((c.keyword.params.take index).drop c.params.length) = .ok gap ∧
          c' = c.placeParam index gap (Parameter.ofText (trim value)) := by
  unfold withParam at h
  split at h
  · simp at h
  · next d index hfind =>
    split at h
    · next htrim =>
      left
      unfold removeParam at h
      split at h
      · simp at h
      · exact ⟨htrim, index, (Except.ok.inj h).symm⟩
    · next hne =>
      right
      unfold setParam at h
      split at h
      · simp at h
      · next hfits =>
        split at h
        · simp at h
        · next gap hgap =>
          refine ⟨hne, by simpa using hfits, index, gap, hgap, ?_⟩
          unfold placeParam
          dsimp only at h
          split at h
          · next hlt =>
            rw [if_pos hlt]
            exact (Except.ok.inj h).symm
          · next hlt =>
            rw [if_neg hlt]
            exact (Except.ok.inj h).symm

@[simp] theorem keyword_placeParam (c : Command) (index : Nat) (gap : List Parameter)
    (p : Parameter) : (c.placeParam index gap p).keyword = c.keyword := by
  unfold placeParam
  split <;> rfl

theorem mem_placeParam {index : Nat} {gap : List Parameter} {p q : Parameter}
    (h : q ∈ (c.placeParam index gap p).params) : q ∈ c.params ∨ q ∈ gap ∨ q = p := by
  unfold placeParam at h
  split at h
  · rcases List.mem_or_eq_of_mem_set h with h | rfl
    · rcases List.mem_append.1 h with h | h
      · exact Or.inl h
      · exact Or.inr (Or.inl h)
    · exact Or.inr (Or.inr rfl)
  · rcases List.mem_append.1 h with h | h
    · rcases List.mem_append.1 h with h | h
      · exact Or.inl h
      · exact Or.inr (Or.inl h)
    · exact Or.inr (Or.inr (List.mem_singleton.1 h))

theorem mem_placeParam_self (c : Command) (index : Nat) (gap : List Parameter) (p : Parameter) :
    p ∈ (c.placeParam index gap p).params := by
  unfold placeParam
  split
  · next hlt => exact List.mem_set hlt _
  · simp

/-- A value that is not blank becomes a parameter. -/
theorem mem_withParam (h : c.withParam name value = .ok c') (hne : trim value ≠ []) :
    Parameter.ofText (trim value) ∈ c'.params := by
  obtain ⟨hnil, -⟩ | ⟨-, -, index, gap, -, rfl⟩ := withParam_eq_ok h
  · exact absurd hnil hne
  · exact mem_placeParam_self c index gap _

/-- What holds of the parameters of a command, of the defaults and of a value that fits a list,
holds of the parameters of the edited command. -/
theorem forall_mem_withParam {P : Parameter → Prop} (h : c.withParam name value = .ok c')
    (hc : ∀ p ∈ c.params, P p)
    (hdefault : ∀ d ∈ c.keyword.params, ∀ s ∈ d.default, P (Parameter.ofText s))
    (hvalue : trim value ≠ [] → fitsList (trim value) = true → P (Parameter.ofText (trim value))) :
    ∀ p ∈ c'.params, P p := by
  intro p hp
  obtain ⟨-, index, rfl⟩ | ⟨hne, hfits, index, gap, hgap, rfl⟩ := withParam_eq_ok h
  · exact hc p (List.mem_of_mem_take hp)
  · rcases mem_placeParam hp with hp | hp | rfl
    · exact hc p hp
    · obtain ⟨d, hd, s, hs, rfl⟩ := mem_defaultsOf hgap hp
      exact hdefault d (List.mem_of_mem_take (List.mem_of_mem_drop hd)) s hs
    · exact hvalue hne hfits

/-- A value that fits a list is well formed as a parameter. -/
theorem wellFormed_value (hne : trim value ≠ []) (hfits : fitsList (trim value) = true) :
    (Parameter.ofText (trim value)).WellFormed where
  parsed := by simp [Parameter.ofText, trim_trim]
  nonempty := by
    rw [Parameter.ofText, trim_trim]
    exact hne
  fits := by
    rw [Parameter.ofText, trim_trim]
    exact hfits

theorem listed_withParam (h : c.withParam name value = .ok c') (hc : ∀ p ∈ c.params, p.Listed) :
    ∀ p ∈ c'.params, p.Listed :=
  forall_mem_withParam h hc
    (fun d hd s hs => (c.keyword.wellFormed_default d hd s hs).1.listed)
    fun hne hfits => (wellFormed_value hne hfits).listed

theorem wellFormed_withParam (h : c.withParam name value = .ok c')
    (hc : ∀ p ∈ c.params, p.WellFormed) : ∀ p ∈ c'.params, p.WellFormed :=
  forall_mem_withParam h hc (fun d hd s hs => (c.keyword.wellFormed_default d hd s hs).1)
    wellFormed_value

/-- Only the value can bring a line feed. -/
theorem newline_not_mem_withParam_iff (h : c.withParam name value = .ok c')
    (hc : ∀ p ∈ c.params, '\n' ∉ p.raw) :
    (∀ p ∈ c'.params, '\n' ∉ p.raw) ↔ '\n' ∉ trim value := by
  have hraw : (Parameter.ofText (trim value)).raw = trim value := trim_trim value
  constructor
  · intro hall
    by_cases hne : trim value = []
    · rw [hne]
      exact List.not_mem_nil
    · have hvalue := hall _ (mem_withParam h hne)
      rw [hraw] at hvalue
      exact hvalue
  · intro hvalue
    refine forall_mem_withParam h hc
      (fun d hd s hs => (c.keyword.wellFormed_default d hd s hs).2) fun _ _ => ?_
    rw [hraw]
    exact hvalue

end Command

end StepScript
