import StepScript.Proofs.Braces
import StepScript.Proofs.CanonicalLine
import StepScript.Proofs.CommandText
import StepScript.Proofs.ParameterEdit

/-!
# Exactly what an edit of a parameter does

An edit of a parameter is refused for one of four reasons: the keyword has no parameter of that name,
the value is blank and the parameter is not the last one, the value does not fit into a list, or a
parameter in front is missing and has no default. The reasons exclude each other, so each error says
which one it was. Otherwise the edit cuts the parameters off at the position, or sets it and fills
the positions in front of it.

Well-formed commands stay well formed, and are read back from their canonical lines, through any
number of edits.

Main statements:

* `Command.edited_withParam` — the ways in which an edit ends;
* `Command.exactWithParam` — which error an edit has, and what becomes of every position;
* `Command.parseLine_toLine_withParams` — a well-formed command is read back after edits.
-/

set_option autoImplicit false

namespace StepScript

open Text

/-! ## Gaps -/

/-- The position `j` is the first one in front of `stop`, from `start` on, whose definition `d` has
no default. -/
structure FirstMissing (defs : List ParamDef) (start stop j : Nat) (d : ParamDef) : Prop where
  start_le : start ≤ j
  lt_stop : j < stop
  getElem?_eq : defs[j]? = some d
  default_eq : d.default = none
  /-- Whatever is in front of it has a default. -/
  filled : ∀ k, start ≤ k → k < j → ∀ d', defs[k]? = some d' → d'.default ≠ none

variable {defs : List ParamDef} {start stop : Nat}

/-- There is one first position without a default. -/
theorem FirstMissing.unique {j j' : Nat} {d d' : ParamDef} (h : FirstMissing defs start stop j d)
    (h' : FirstMissing defs start stop j' d') : d = d' := by
  have hle : ¬ j < j' := fun hlt => h'.filled j h.start_le hlt d h.getElem?_eq h.default_eq
  have hge : ¬ j' < j := fun hlt => h.filled j' h'.start_le hlt d' h'.getElem?_eq h'.default_eq
  obtain rfl : j = j' := by omega
  exact Option.some.inj (h.getElem?_eq.symm.trans h'.getElem?_eq)

/-- A gap is filled exactly with the defaults of its definitions. -/
theorem defaultsOf_eq_ok {gap : List Parameter} (h : defaultsOf defs = .ok gap) :
    gap.map some = defs.map fun d => d.default.map Parameter.ofText := by
  induction defs generalizing gap with
  | nil =>
      obtain rfl : [] = gap := Except.ok.inj h
      rfl
  | cons d defs ih =>
      rw [defaultsOf] at h
      cases hd : d.default with
      | none => simp [hd] at h
      | some s =>
          cases hrest : defaultsOf defs with
          | error e => simp [hd, hrest] at h
          | ok rest =>
              obtain rfl : Parameter.ofText s :: rest = gap := by simpa [hd, hrest] using h
              rw [List.map_cons, List.map_cons, ih hrest, hd]
              rfl

/-- If a gap is not filled, the error names the first definition without a default. -/
theorem defaultsOf_eq_error {err : EditError} (h : defaultsOf defs = .error err) :
    ∃ j d, FirstMissing defs 0 defs.length j d ∧ err = .missingPrecedingParam d.name := by
  induction defs with
  | nil => cases h
  | cons d defs ih =>
      rw [defaultsOf] at h
      cases hd : d.default with
      | none =>
          obtain rfl : EditError.missingPrecedingParam d.name = err := by simpa [hd] using h
          exact ⟨0, d, ⟨Nat.le_refl 0, Nat.succ_pos _, rfl, hd, fun k _ hk => absurd hk (by omega)⟩,
            rfl⟩
      | some s =>
          cases hrest : defaultsOf defs with
          | ok rest => simp [hd, hrest] at h
          | error e =>
              obtain rfl : e = err := by simpa [hd, hrest] using h
              obtain ⟨j, d', hfirst, rfl⟩ := ih hrest
              refine ⟨j + 1, d', ⟨Nat.zero_le _, Nat.succ_lt_succ hfirst.lt_stop, ?_,
                hfirst.default_eq, fun k _ hk dk hdk => ?_⟩, rfl⟩
              · rw [List.getElem?_cons_succ]
                exact hfirst.getElem?_eq
              · cases k with
                | zero =>
                    obtain rfl : d = dk := Option.some.inj hdk
                    simp [hd]
                | succ k =>
                    rw [List.getElem?_cons_succ] at hdk
                    exact hfirst.filled k (Nat.zero_le k) (by omega) dk hdk

/-- The positions of a gap are positions of the table. -/
theorem getElem?_drop_take (k : Nat) :
    ((defs.take stop).drop start)[k]? = if start + k < stop then defs[start + k]? else none := by
  rw [List.getElem?_drop, List.getElem?_take]

theorem firstMissing_of_drop_take {j : Nat} {d : ParamDef}
    (h : FirstMissing ((defs.take stop).drop start) 0 ((defs.take stop).drop start).length j d) :
    FirstMissing defs start stop (start + j) d := by
  have hlt : start + j < stop := by
    have hlen := h.lt_stop
    rw [List.length_drop, List.length_take] at hlen
    omega
  have hget := h.getElem?_eq
  rw [getElem?_drop_take, if_pos hlt] at hget
  refine ⟨Nat.le_add_right start j, hlt, hget, h.default_eq, fun k hle hk d' hd' => ?_⟩
  refine h.filled (k - start) (Nat.zero_le _) (by omega) d' ?_
  rw [getElem?_drop_take, Nat.add_sub_cancel' hle, if_pos (by omega), hd']

/-- What stands in a filled gap at a position of the table. -/
theorem getElem?_gap {gap : List Parameter}
    (hgap : defaultsOf ((defs.take stop).drop start) = .ok gap) {j : Nat} (hle : start ≤ j)
    (hlt : j < stop) :
    gap[j - start]?.map some = defs[j]?.map fun d => d.default.map Parameter.ofText := by
  rw [← List.getElem?_map, defaultsOf_eq_ok hgap, List.getElem?_map, getElem?_drop_take,
    Nat.add_sub_cancel' hle, if_pos hlt]

/-- A gap with a definition that has no default is not filled. -/
theorem FirstMissing.default_ne_none {gap : List Parameter} {j : Nat} {d : ParamDef}
    (h : FirstMissing defs start stop j d)
    (hgap : defaultsOf ((defs.take stop).drop start) = .ok gap) : d.default ≠ none := by
  intro hnone
  have hpos := getElem?_gap hgap h.start_le h.lt_stop
  rw [h.getElem?_eq, Option.map_some, hnone, Option.map_none] at hpos
  obtain ⟨q, -, hq⟩ := Option.map_eq_some_iff.1 hpos
  cases hq

/-! ## The ways in which an edit ends -/

namespace Command

variable {c c' : Command} {name value v : List Char} {i : Nat} {d : ParamDef}

/-- A value that a list can hold as one item: its braces match, it holds no closing bracket, and its
commas stand inside braces. -/
def FitsItem (v : List Char) : Prop :=
  BracesMatch v ∧ ']' ∉ v ∧ CommasInBraces v

/-- How an edit ends that gives the trimmed value `v` to the position `i`, of which `d` is the
definition. -/
inductive Edited (c : Command) (i : Nat) (d : ParamDef) (v : List Char) :
    Except EditError Command → Prop
  /-- A parameter is to be removed, and others stand behind it. -/
  | notLast (hblank : v = []) (hlt : i + 1 < c.params.length) :
    Edited c i d v (.error (.emptyParam d.name))
  /-- The parameters are cut off at the position. -/
  | removed (hblank : v = []) (hle : c.params.length ≤ i + 1) :
    Edited c i d v (.ok { c with params := c.params.take i })
  /-- The value does not fit into a list. -/
  | unfit (hvalue : v ≠ []) (hfits : ¬ FitsItem v) :
    Edited c i d v (.error (.invalidParamValue d.name v))
  /-- A parameter in front is missing. -/
  | missing {j : Nat} {d' : ParamDef} (hvalue : v ≠ []) (hfits : FitsItem v)
    (hfirst : FirstMissing c.keyword.params c.params.length i j d') :
    Edited c i d v (.error (.missingPrecedingParam d'.name))
  /-- The value is placed, behind the defaults that were missing. -/
  | placed {gap : List Parameter} (hvalue : v ≠ []) (hfits : FitsItem v)
    (hgap : defaultsOf ((c.keyword.params.take i).drop c.params.length) = .ok gap) :
    Edited c i d v (.ok (c.placeParam i gap (Parameter.ofText v)))

theorem edited_removeParam (c : Command) (i : Nat) (d : ParamDef) :
    Edited c i d [] (c.removeParam i d) := by
  rw [removeParam]
  split
  · next hlt => exact .notLast rfl hlt
  · next hle => exact .removed rfl (by omega)

theorem edited_setParam (c : Command) (i : Nat) (d : ParamDef) (hvalue : v ≠ []) :
    Edited c i d v (c.setParam i d v) := by
  rw [setParam]
  cases hfits : fitsList v with
  | false =>
      refine .unfit hvalue fun h => ?_
      rw [FitsItem, ← fitsList_iff, hfits] at h
      cases h
  | true =>
      have hitem : FitsItem v := fitsList_iff.1 hfits
      rw [if_neg (by simp)]
      cases hgap : defaultsOf ((c.keyword.params.take i).drop c.params.length) with
      | error err =>
          obtain ⟨j, d', hfirst, rfl⟩ := defaultsOf_eq_error hgap
          exact .missing hvalue hitem (firstMissing_of_drop_take hfirst)
      | ok gap =>
          have hplaced := Edited.placed (d := d) hvalue hitem hgap
          unfold placeParam at hplaced
          dsimp only
          split
          · next hlt =>
            rw [if_pos hlt] at hplaced
            exact hplaced
          · next hle =>
            rw [if_neg hle] at hplaced
            exact hplaced

/-- The position that is looked up is that of the table. -/
theorem find?_params (k : Keyword) (name : List Char) :
    (k.params.zipIdx.find? fun (d, _) => d.name == name) =
      (k.paramIndex? name).bind fun i => k.params[i]?.map fun d => (d, i) := by
  rw [Keyword.paramIndex?, List.findIdx?_eq_fst_find?_zipIdx]
  cases hfind : k.params.zipIdx.find? fun (d, _) => d.name == name with
  | none => rfl
  | some found =>
      obtain ⟨d, i⟩ := found
      have hmem : k.params[i]? = some d :=
        List.mem_zipIdx_iff_getElem?.1 (List.mem_of_find?_eq_some hfind)
      simp [hmem]

/-- A name that is found has a definition. -/
theorem exists_param_of_paramIndex? {k : Keyword} (h : k.paramIndex? name = some i) :
    ∃ d, k.params[i]? = some d ∧ d.name = name := by
  obtain ⟨hlt, hname, -⟩ := List.findIdx?_eq_some_iff_getElem.1 h
  exact ⟨k.params[i], List.getElem?_eq_getElem hlt, by simpa using hname⟩

/-- An edit of a name that the keyword does not have. -/
theorem withParam_of_none (h : c.keyword.paramIndex? name = none) :
    c.withParam name value = .error (.unknownParam c.keyword name) := by
  rw [withParam, find?_params, h]
  rfl

/-- **How an edit of a name that the keyword has ends.** -/
theorem edited_withParam (h : c.keyword.paramIndex? name = some i)
    (hd : c.keyword.params[i]? = some d) (value : List Char) :
    Edited c i d (trim value) (c.withParam name value) := by
  rw [withParam, find?_params, h, Option.bind_some, hd, Option.map_some]
  cases hvalue : trim value with
  | nil => exact edited_removeParam c i d
  | cons x v => exact edited_setParam c i d (List.cons_ne_nil x v)

/-! ## Positions -/

variable {gap : List Parameter}

/-- A gap reaches up to the position. -/
theorem length_params_append_gap (hgap : gap.length = i - c.params.length) :
    (c.params ++ gap).length = max c.params.length i := by
  rw [List.length_append, hgap]
  omega

/-- The length of a command after a value is placed. -/
theorem length_placeParam (hgap : gap.length = i - c.params.length) (p : Parameter) :
    (c.placeParam i gap p).params.length = max c.params.length (i + 1) := by
  have hlen := length_params_append_gap hgap
  unfold placeParam
  split
  · next hlt =>
    rw [List.length_set]
    omega
  · next hle =>
    rw [List.length_append, List.length_singleton]
    omega

/-- What stands at each position after a value is placed. -/
theorem getElem?_placeParam (hgap : gap.length = i - c.params.length) (p : Parameter) (j : Nat) :
    (c.placeParam i gap p).params[j]? =
      if j = i then some p
      else if j < c.params.length then c.params[j]? else gap[j - c.params.length]? := by
  have hlen := length_params_append_gap hgap
  have hothers : (c.params ++ gap)[j]? =
      if j < c.params.length then c.params[j]? else gap[j - c.params.length]? :=
    List.getElem?_append
  unfold placeParam
  split
  · next hlt =>
    by_cases hj : j = i
    · rw [if_pos hj, hj, List.getElem?_set_self hlt]
    · rw [if_neg hj, List.getElem?_set_ne (Ne.symm hj), hothers]
  · next hle =>
    -- the value comes right behind the parameters and the gap
    have hend : (c.params ++ gap).length = i := by omega
    by_cases hj : j = i
    · rw [if_pos hj, hj, ← hend, List.getElem?_concat_length]
    · rw [if_neg hj, ← hothers]
      by_cases hlt : j < i
      · rw [List.getElem?_append_left (by omega)]
      · rw [List.getElem?_eq_none (by rw [List.length_append, List.length_singleton]; omega),
          List.getElem?_eq_none (by omega)]

/-- The command `c'` is the command `c` with the parameter `p` at the position `i`. -/
structure SetAt (c : Command) (i : Nat) (p : Parameter) (c' : Command) : Prop where
  keyword_eq : c'.keyword = c.keyword
  line_eq : c'.line = c.line
  length_eq : c'.params.length = max c.params.length (i + 1)
  placed : c'.params[i]? = some p
  /-- Positions that were open in front of it hold the defaults of the table. -/
  filled : ∀ j, c.params.length ≤ j → j < i → ∃ d s, c.keyword.params[j]? = some d ∧
    d.default = some s ∧ c'.params[j]? = some (Parameter.ofText s)
  unchanged : ∀ j, j ≠ i → j < c.params.length → c'.params[j]? = c.params[j]?

/-- A value that is placed behind the defaults of a gap. -/
theorem setAt_placeParam (hlt : i < c.keyword.params.length)
    (hgap : defaultsOf ((c.keyword.params.take i).drop c.params.length) = .ok gap)
    (p : Parameter) : SetAt c i p (c.placeParam i gap p) := by
  have hlen : gap.length = i - c.params.length := by
    have hlengths := congrArg List.length (defaultsOf_eq_ok hgap)
    rw [List.length_map, List.length_map, List.length_drop, List.length_take] at hlengths
    omega
  have hget := getElem?_placeParam hlen p
  refine ⟨keyword_placeParam c i gap p, ?_, length_placeParam hlen p, ?_, ?_, ?_⟩
  · unfold placeParam
    split <;> rfl
  · rw [hget, if_pos rfl]
  · intro j hle hji
    -- the definition in the table has the default that the gap holds
    have hd := List.getElem?_eq_getElem (l := c.keyword.params) (i := j) (by omega)
    have hpos := getElem?_gap hgap hle hji
    rw [hd, Option.map_some] at hpos
    obtain ⟨q, hq, hsome⟩ := Option.map_eq_some_iff.1 hpos
    obtain ⟨s, hs, rfl⟩ := Option.map_eq_some_iff.1 hsome.symm
    refine ⟨_, s, hd, hs, ?_⟩
    rw [hget, if_neg (by omega), if_neg (by omega), hq]
  · intro j hne hj
    rw [hget, if_neg hne, if_pos hj]

/-! ## Exact edits -/

/-- What is promised of an edit that gives the trimmed value `v` to the position `i`, of which `d`
is the definition: when it has which error, and what it does without one. -/
structure ExactEdit (c : Command) (i : Nat) (d : ParamDef) (v : List Char)
    (answer : Except EditError Command) : Prop where
  empty_iff : ∀ p, answer = .error (.emptyParam p) ↔
    p = d.name ∧ v = [] ∧ i + 1 < c.params.length
  invalid_iff : ∀ p w, answer = .error (.invalidParamValue p w) ↔
    p = d.name ∧ w = v ∧ v ≠ [] ∧ ¬ FitsItem v
  missing_iff : ∀ p, answer = .error (.missingPrecedingParam p) ↔
    (v ≠ [] ∧ FitsItem v) ∧
      ∃ j d', FirstMissing c.keyword.params c.params.length i j d' ∧ p = d'.name
  removed : v = [] → c.params.length ≤ i + 1 →
    answer = .ok { c with params := c.params.take (min c.params.length i) }
  set : v ≠ [] → FitsItem v →
    (∀ j d', ¬ FirstMissing c.keyword.params c.params.length i j d') →
    ∃ c', answer = .ok c' ∧ SetAt c i (Parameter.ofText v) c'

namespace Edited

variable {answer : Except EditError Command}

theorem empty_iff (h : Edited c i d v answer) {p : List Char} :
    answer = .error (.emptyParam p) ↔ p = d.name ∧ v = [] ∧ i + 1 < c.params.length := by
  constructor
  · rintro rfl
    cases h with
    | notLast hblank hlt => exact ⟨rfl, hblank, hlt⟩
  · rintro ⟨rfl, hblank, hlt⟩
    cases h with
    | notLast => rfl
    | removed _ hle => omega
    | _ => contradiction

theorem invalid_iff (h : Edited c i d v answer) {p w : List Char} :
    answer = .error (.invalidParamValue p w) ↔ p = d.name ∧ w = v ∧ v ≠ [] ∧ ¬ FitsItem v := by
  constructor
  · rintro rfl
    cases h with
    | unfit hvalue hfits => exact ⟨rfl, rfl, hvalue, hfits⟩
  · rintro ⟨rfl, rfl, hvalue, hfits⟩
    cases h with
    | unfit => rfl
    | _ => contradiction

theorem missing_iff (h : Edited c i d v answer) {p : List Char} :
    answer = .error (.missingPrecedingParam p) ↔ (v ≠ [] ∧ FitsItem v) ∧
      ∃ j d', FirstMissing c.keyword.params c.params.length i j d' ∧ p = d'.name := by
  constructor
  · rintro rfl
    cases h with
    | missing hvalue hfits hfirst => exact ⟨⟨hvalue, hfits⟩, _, _, hfirst, rfl⟩
  · rintro ⟨⟨hvalue, hfits⟩, j, d', hfirst, rfl⟩
    cases h with
    | missing _ _ hfirst' => rw [hfirst.unique hfirst']
    | placed _ _ hgap => exact absurd hfirst.default_eq (hfirst.default_ne_none hgap)
    | _ => contradiction

/-- A blank value cuts the parameters off, unless others stand behind the position. -/
theorem eq_removed (h : Edited c i d v answer) (hblank : v = []) (hle : c.params.length ≤ i + 1) :
    answer = .ok { c with params := c.params.take (min c.params.length i) } := by
  rw [Nat.min_comm, ← List.take_eq_take_min]
  cases h with
  | notLast _ hlt => omega
  | removed => rfl
  | _ => contradiction

/-- A value that fits is set, unless a parameter in front is missing. -/
theorem exists_setAt (h : Edited c i d v answer) (hlt : i < c.keyword.params.length)
    (hvalue : v ≠ []) (hfits : FitsItem v)
    (hnone : ∀ j d', ¬ FirstMissing c.keyword.params c.params.length i j d') :
    ∃ c', answer = .ok c' ∧ SetAt c i (Parameter.ofText v) c' := by
  cases h with
  | missing _ _ hfirst => exact absurd hfirst (hnone _ _)
  | placed _ _ hgap => exact ⟨_, rfl, setAt_placeParam hlt hgap _⟩
  | _ => contradiction

end Edited

/-- What is promised of an edit of the parameter called `name`. -/
structure ExactWithParam (c : Command) (name value : List Char) : Prop where
  /-- The name is refused exactly if the keyword has no parameter of that name. -/
  unknown_iff : ∀ k p, c.withParam name value = .error (.unknownParam k p) ↔
    k = c.keyword ∧ p = name ∧ ∀ d ∈ c.keyword.params, d.name ≠ name
  /-- Otherwise the name has a place in the table, and the edit is exact there. -/
  known : ∀ i, c.keyword.paramIndex? name = some i →
    ∃ d, c.keyword.params[i]? = some d ∧ d.name = name ∧
      ExactEdit c i d (trim value) (c.withParam name value)
  /-- Well-formed commands stay well formed, and are read back from their canonical lines. -/
  closed : (∀ p ∈ c.params, p.IsItem) → ∀ c', c.withParam name value = .ok c' →
    (∀ p ∈ c'.params, p.IsItem) ∧
      ∀ number, Script.parseLine .standard c'.toLine number = some { c' with line := number }

/-- A well-formed command is read back from its canonical line. -/
theorem parseLine_toLine (h : ∀ p ∈ c.params, p.IsItem) (number : Nat) :
    Script.parseLine .standard c.toLine number = some { c with line := number } := by
  have hwell : ∀ p ∈ c.params, p.WellFormed := fun p hp =>
    Parameter.wellFormed_iff_isItem.2 (h p hp)
  have hparams : Script.lineParams .standard c.toLine = c.params :=
    (lineParams_toLine_iff allBlank_nil fun p hp => (hwell p hp).listed).2
      (rereadable_of_wellFormed hwell)
  rw [parseLine_toLine_eq, hparams]

theorem isItem_withParam (h : c.withParam name value = .ok c') (hc : ∀ p ∈ c.params, p.IsItem) :
    ∀ p ∈ c'.params, p.IsItem := fun p hp =>
  Parameter.wellFormed_iff_isItem.1 <|
    wellFormed_withParam h (fun q hq => Parameter.wellFormed_iff_isItem.2 (hc q hq)) p hp

/-- **An edit of a parameter is exact**, and keeps commands well formed. -/
theorem exactWithParam (c : Command) (name value : List Char) : ExactWithParam c name value where
  unknown_iff k p := by
    cases hi : c.keyword.paramIndex? name with
    | none =>
        have hnone : ∀ d ∈ c.keyword.params, d.name ≠ name := by
          simpa using List.findIdx?_eq_none_iff.1 hi
        rw [withParam_of_none hi, Except.error.injEq, EditError.unknownParam.injEq]
        exact ⟨fun ⟨hk, hp⟩ => ⟨hk.symm, hp.symm, hnone⟩, fun ⟨hk, hp, _⟩ => ⟨hk.symm, hp.symm⟩⟩
    | some i =>
        obtain ⟨d, hd, hname⟩ := exists_param_of_paramIndex? hi
        have hfound : ¬ ∀ d ∈ c.keyword.params, d.name ≠ name := fun hnone =>
          hnone d (List.mem_of_getElem? hd) hname
        constructor
        · intro hunknown
          have hedited := edited_withParam hi hd value
          rw [hunknown] at hedited
          cases hedited
        · rintro ⟨-, -, hnone⟩
          exact absurd hnone hfound
  known i hi := by
    obtain ⟨d, hd, hname⟩ := exists_param_of_paramIndex? hi
    have hedited := edited_withParam hi hd value
    have hlt : i < c.keyword.params.length := (List.getElem?_eq_some_iff.1 hd).1
    exact ⟨d, hd, hname, fun _ => hedited.empty_iff, fun _ _ => hedited.invalid_iff,
      fun _ => hedited.missing_iff, hedited.eq_removed, hedited.exists_setAt hlt⟩
  closed hc c' h := by
    have hc' := isItem_withParam h hc
    exact ⟨hc', parseLine_toLine hc'⟩

/-- A duration is set behind the two defaults of a swipe. -/
example : (ofTexts .swipe []).withParam "时长/ms".toList " 5 ".toList =
    .ok (ofTexts .swipe ["\x7b200,400\x7d".toList, "\x7b300,600\x7d".toList, "5".toList]) := by
  decide

/-! ## Runs of edits -/

/-- A command after edits of its parameters, each a name and a value; a refused edit leaves the
command as it is. -/
def withParams (c : Command) (edits : List (List Char × List Char)) : Command :=
  edits.foldl (fun c edit => (c.withParam edit.1 edit.2).toOption.getD c) c

/-- No run of edits makes a command ill formed. -/
theorem isItem_withParams (hc : ∀ p ∈ c.params, p.IsItem) (edits : List (List Char × List Char)) :
    ∀ p ∈ (c.withParams edits).params, p.IsItem := by
  induction edits generalizing c with
  | nil => exact hc
  | cons edit edits ih =>
      refine ih (c := (c.withParam edit.1 edit.2).toOption.getD c) ?_
      cases h : c.withParam edit.1 edit.2 with
      | error err => exact hc
      | ok c' => exact isItem_withParam h hc

/-- **A well-formed command is read back after any edits.** -/
theorem parseLine_toLine_withParams (hc : ∀ p ∈ c.params, p.IsItem)
    (edits : List (List Char × List Char)) (number : Nat) :
    Script.parseLine .standard (c.withParams edits).toLine number =
      some { c.withParams edits with line := number } :=
  parseLine_toLine (isItem_withParams hc edits) number

end Command

end StepScript
