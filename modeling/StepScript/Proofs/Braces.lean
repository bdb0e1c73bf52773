import Mathlib.Data.List.Infix
import StepScript.Proofs.ParameterList

/-!
# Matching braces

Whether a text fits into a parameter list is decided by a scan that counts open braces. Said without
the scan, a text fits if its braces match, if it holds no closing bracket, and if every comma of it
stands inside braces.

Main statements:

* `fitsList_iff` — which texts fit into a list;
* `Parameter.wellFormed_iff_isItem` — well-formed parameters are the items that a list can hold.
-/

set_option autoImplicit false

namespace StepScript

open Text

/-! ## Braces and commas -/

/-- The braces of a text **match**: none closes what is not open, and none is left open. -/
structure BracesMatch (s : List Char) : Prop where
  /-- No brace closes what is not open. -/
  opened : ∀ t, t <+: s → t.count '}' ≤ t.count '{'
  /-- No brace is left open. -/
  closed : s.count '}' = s.count '{'

instance (s : List Char) : Decidable (BracesMatch s) :=
  decidable_of_iff ((∀ t ∈ s.inits, t.count '}' ≤ t.count '{') ∧ s.count '}' = s.count '{')
    ⟨fun ⟨hopened, hclosed⟩ => ⟨fun t ht => hopened t ((List.mem_inits t s).2 ht), hclosed⟩,
      fun h => ⟨fun t ht => h.opened t ((List.mem_inits t s).1 ht), h.closed⟩⟩

/-- Every comma of a text stands inside braces. -/
def CommasInBraces (s : List Char) : Prop :=
  ∀ t, t ++ [','] <+: s → t.count '}' < t.count '{'

/-- A text that fits into a list in which `depth` braces are open. -/
structure FitsFrom (depth : Nat) (s : List Char) : Prop where
  opened : ∀ t, t <+: s → t.count '}' ≤ depth + t.count '{'
  closed : s.count '}' = depth + s.count '{'
  unbracketed : ']' ∉ s
  enclosed : ∀ t, t ++ [','] <+: s → t.count '}' < depth + t.count '{'

/-- The starts of a text are the empty one and those that start with its first character. -/
theorem forall_prefix_cons {α : Type} {p : List α → Prop} {c : α} {s : List α} :
    (∀ t, t <+: c :: s → p t) ↔ p [] ∧ ∀ t, t <+: s → p (c :: t) := by
  constructor
  · intro h
    exact ⟨h [] List.nil_prefix, fun t ht => h _ (List.cons_prefix_cons.2 ⟨rfl, ht⟩)⟩
  · rintro ⟨hnil, hcons⟩ t ht
    rcases List.prefix_cons_iff.1 ht with rfl | ⟨t, rfl, htail⟩
    · exact hnil
    · exact hcons t htail

/-- A character stands at the head of a text, or behind it. -/
theorem forall_prefix_concat_cons {α : Type} {p : List α → Prop} {c d : α} {s : List α} :
    (∀ t, t ++ [d] <+: c :: s → p t) ↔ (d = c → p []) ∧ ∀ t, t ++ [d] <+: s → p (c :: t) := by
  constructor
  · intro h
    refine ⟨fun hdc => h [] ?_, fun t ht => h _ (List.cons_prefix_cons.2 ⟨rfl, ht⟩)⟩
    exact List.cons_prefix_cons.2 ⟨hdc, List.nil_prefix⟩
  · rintro ⟨hhead, htail⟩ t ht
    cases t with
    | nil => exact hhead (List.cons_prefix_cons.1 ht).1
    | cons b t =>
        obtain ⟨rfl, hrest⟩ := List.cons_prefix_cons.1 ht
        exact htail t hrest

/-! ## The scan -/

theorem fitsFrom_nil {depth : Nat} : FitsFrom depth [] ↔ depth = 0 := by
  constructor
  · intro h
    simpa using h.closed.symm
  · rintro rfl
    constructor <;> simp

/-- A brace at the head of a text may be counted with the braces that are open before the text. -/
theorem count_cons_brace {depth : Nat} {c : Char} (h : c = '}' → depth ≠ 0) (t : List Char) :
    depth + (c :: t).count '{' + t.count '}' =
      Parameter.braceStep depth c + t.count '{' + (c :: t).count '}' := by
  unfold Parameter.braceStep
  by_cases hopen : c = '{'
  · subst hopen
    simp
    omega
  · by_cases hclose : c = '}'
    · have hdepth := h hclose
      subst hclose
      simp
      omega
    · rw [if_neg hopen, if_neg hclose, List.count_cons_of_ne hopen, List.count_cons_of_ne hclose]

/-- A text fits if its first character may stand there, and the rest fits behind it. -/
theorem fitsFrom_cons {depth : Nat} {c : Char} {s : List Char} :
    FitsFrom depth (c :: s) ↔ (c = '}' → depth ≠ 0) ∧ c ≠ ']' ∧ ¬ (c = ',' ∧ depth = 0) ∧
      FitsFrom (Parameter.braceStep depth c) s := by
  constructor
  · intro h
    obtain ⟨-, hopened⟩ := forall_prefix_cons.1 h.opened
    obtain ⟨hcomma, henclosed⟩ := forall_prefix_concat_cons.1 h.enclosed
    obtain ⟨hbracket, hrest⟩ := List.ne_and_not_mem_of_not_mem_cons h.unbracketed
    have hc : c = '}' → depth ≠ 0 := by
      rintro rfl rfl
      simpa using hopened [] List.nil_prefix
    refine ⟨hc, Ne.symm hbracket, ?_, ?_, ?_, hrest, ?_⟩
    · rintro ⟨rfl, rfl⟩
      simpa using hcomma rfl
    · intro t ht
      have hcount := count_cons_brace hc t
      have hle := hopened t ht
      omega
    · have hcount := count_cons_brace hc s
      have hclosed := h.closed
      omega
    · intro t ht
      have hcount := count_cons_brace hc t
      have hlt := henclosed t ht
      omega
  · rintro ⟨hc, hbracket, hcomma, h⟩
    refine ⟨forall_prefix_cons.2 ⟨by simp, fun t ht => ?_⟩, ?_,
      List.not_mem_cons_of_ne_of_not_mem (Ne.symm hbracket) h.unbracketed,
      forall_prefix_concat_cons.2 ⟨fun heq => ?_, fun t ht => ?_⟩⟩
    · have hcount := count_cons_brace hc t
      have hle := h.opened t ht
      omega
    · have hcount := count_cons_brace hc s
      have hclosed := h.closed
      omega
    · have hdepth : depth ≠ 0 := fun hdepth => hcomma ⟨heq.symm, hdepth⟩
      simpa using Nat.pos_of_ne_zero hdepth
    · have hcount := count_cons_brace hc t
      have hlt := h.enclosed t ht
      omega

/-- The scan of a text says whether it fits. -/
theorem fitsListFrom_iff {depth : Nat} {s : List Char} :
    fitsListFrom depth s = true ↔ FitsFrom depth s := by
  induction s generalizing depth with
  | nil => rw [fitsFrom_nil, fitsListFrom, beq_iff_eq]
  | cons c s ih =>
      rw [fitsFrom_cons, ← ih, fitsListFrom, Parameter.braceStep]
      split
      · next hopen => simp [hopen]
      · split
        · next hclose => simp [hclose]
        · split
          · next hbracket => simp [hbracket]
          · split
            · next hcomma => simp [hcomma]
            · next hclose hbracket hcomma => simp [hclose, hbracket, hcomma]

/-- A text fits into a list if its braces match, it holds no closing bracket, and every comma of it
stands inside braces. -/
theorem fitsList_iff {s : List Char} :
    fitsList s = true ↔ BracesMatch s ∧ ']' ∉ s ∧ CommasInBraces s := by
  rw [fitsList, fitsListFrom_iff]
  constructor
  · intro h
    refine ⟨⟨fun t ht => ?_, ?_⟩, h.unbracketed, fun t ht => ?_⟩
    · simpa using h.opened t ht
    · simpa using h.closed
    · simpa using h.enclosed t ht
  · rintro ⟨hmatch, hbracket, hcommas⟩
    refine ⟨fun t ht => ?_, ?_, hbracket, fun t ht => ?_⟩
    · simpa using hmatch.opened t ht
    · simpa using hmatch.closed
    · simpa using hcommas t ht

/-! ## Open braces -/

/-- If no brace closes what is not open, the braces that are open are counted. -/
theorem braceDepth_add_count {depth : Nat} {s : List Char}
    (h : ∀ t, t <+: s → t.count '}' ≤ depth + t.count '{') :
    Parameter.braceDepth depth s + s.count '}' = depth + s.count '{' := by
  induction s generalizing depth with
  | nil => simp
  | cons c s ih =>
      obtain ⟨-, hrest⟩ := forall_prefix_cons.1 h
      have hc : c = '}' → depth ≠ 0 := by
        rintro rfl rfl
        simpa using hrest [] List.nil_prefix
      have hcount := count_cons_brace hc s
      have hopened : ∀ t, t <+: s → t.count '}' ≤ Parameter.braceStep depth c + t.count '{' :=
        fun t ht => by
          have hle := hrest t ht
          have hcount := count_cons_brace hc t
          omega
      have hdepth := ih hopened
      rw [Parameter.braceDepth_cons]
      omega

namespace BracesMatch

variable {s : List Char}

/-- In front of every place of a text whose braces match, the open braces are counted. -/
theorem braceDepth_add_count (h : BracesMatch s) {t : List Char} (ht : t <+: s) :
    Parameter.braceDepth 0 t + t.count '}' = t.count '{' := by
  have hopened : ∀ u, u <+: t → u.count '}' ≤ 0 + u.count '{' := fun u hu => by
    rw [Nat.zero_add]
    exact h.opened u (hu.trans ht)
  have hdepth := StepScript.braceDepth_add_count hopened
  omega

/-- Braces that match leave none open. -/
theorem braceDepth_eq_zero (h : BracesMatch s) : Parameter.braceDepth 0 s = 0 := by
  have hdepth := h.braceDepth_add_count List.prefix_rfl
  have hclosed := h.closed
  omega

/-- A text at which a list is not cut has its commas inside braces. -/
theorem commasInBraces (h : BracesMatch s) (huncut : Parameter.cuts 0 s = 0) :
    CommasInBraces s := by
  rintro t ⟨u, rfl⟩
  have hdepth := h.braceDepth_add_count (t := t) (by simp)
  rw [List.append_assoc, Parameter.cuts_append, List.singleton_append, Parameter.cuts] at huncut
  have hopen : Parameter.braceDepth 0 t ≠ 0 := fun hzero => by
    rw [if_pos ⟨rfl, hzero⟩] at huncut
    omega
  omega

end BracesMatch

/-! ## Items of a list -/

namespace Parameter

/-- A parameter that a list can hold as an **item**: it is read from its raw text, which is not
empty, has matching braces, no closing bracket, and commas inside braces only. -/
structure IsItem (p : Parameter) : Prop where
  parsed : ∃ s, ofText s = p
  nonempty : p.raw ≠ []
  braces : BracesMatch p.raw
  unbracketed : ']' ∉ p.raw
  commas : CommasInBraces p.raw

/-- Well-formed parameters are the items that a list can hold. -/
theorem wellFormed_iff_isItem {p : Parameter} : p.WellFormed ↔ p.IsItem := by
  constructor
  · intro h
    obtain ⟨hbraces, hbracket, hcommas⟩ := fitsList_iff.1 h.fits
    exact ⟨⟨p.raw, h.parsed⟩, h.nonempty, hbraces, hbracket, hcommas⟩
  · intro h
    obtain ⟨s, hs⟩ := h.parsed
    refine ⟨?_, h.nonempty, fitsList_iff.2 ⟨h.braces, h.unbracketed, h.commas⟩⟩
    rw [← hs]
    simp [ofText, trim_trim]

end Parameter

end StepScript
