import Mathlib.Data.List.Basic
import StepScript.Command.Edit
import StepScript.Proofs.Trim

/-!
# Parameter lists

A parameter list is cut at the commas outside braces. The number of such commas in a text is
additive over concatenation, given the number of braces that are open where the text starts, and it
does not grow when more of them are open. From this follows what becomes of parameters that are
joined by commas: they come back as they were if every one but the last leaves no brace open, and
otherwise at least two of them become one.

Main statements:

* `cuts_append`, `cuts_le_of_le` — the commas at which a text is cut;
* `ofList_joinRaws` — parameters that leave no brace open come back from their list;
* `length_ofList_joinRaws_lt` — a brace that is left open in front of another parameter merges the
  two.
-/

set_option autoImplicit false

namespace StepScript

open Text

namespace Parameter

/-! ## Open braces -/

/-- The number of open braces after one more character; a brace that closes nothing is ignored. -/
def braceStep (depth : Nat) (c : Char) : Nat :=
  if c = '{' then depth + 1 else if c = '}' then depth - 1 else depth

def braceDepth (depth : Nat) (s : List Char) : Nat :=
  s.foldl braceStep depth

@[simp] theorem braceDepth_nil (depth : Nat) : braceDepth depth [] = depth := rfl

@[simp] theorem braceDepth_cons (depth : Nat) (c : Char) (s : List Char) :
    braceDepth depth (c :: s) = braceDepth (braceStep depth c) s := rfl

theorem braceDepth_append (depth : Nat) (s t : List Char) :
    braceDepth depth (s ++ t) = braceDepth (braceDepth depth s) t :=
  List.foldl_append

theorem braceStep_le_of_le {d e : Nat} (h : d ≤ e) (c : Char) : braceStep d c ≤ braceStep e c := by
  unfold braceStep
  split
  · omega
  · split <;> omega

theorem braceDepth_le_of_le {d e : Nat} (h : d ≤ e) (s : List Char) :
    braceDepth d s ≤ braceDepth e s := by
  induction s generalizing d e with
  | nil => exact h
  | cons c s ih => exact ih (braceStep_le_of_le h c)

theorem braceStep_of_isBlank (depth : Nat) {c : Char} (h : isBlank c = true) :
    braceStep depth c = depth := by
  have hopen : c ≠ '{' := by
    rintro rfl
    revert h
    decide
  have hclose : c ≠ '}' := by
    rintro rfl
    revert h
    decide
  simp [braceStep, hopen, hclose]

theorem braceDepth_of_allBlank (depth : Nat) {b : List Char} (h : allBlank b = true) :
    braceDepth depth b = depth := by
  induction b with
  | nil => rfl
  | cons c b ih =>
      rw [allBlank_iff] at h
      rw [braceDepth_cons, braceStep_of_isBlank depth (h c List.mem_cons_self)]
      exact ih (allBlank_iff.2 fun d hd => h d (List.mem_cons_of_mem _ hd))

/-! ## Cuts -/

/-- The number of commas of a text at which a list is cut, where `depth` braces are open. -/
def cuts (depth : Nat) : List Char → Nat
  | [] => 0
  | c :: s => (if c = ',' ∧ depth = 0 then 1 else 0) + cuts (braceStep depth c) s

@[simp] theorem cuts_nil (depth : Nat) : cuts depth [] = 0 := rfl

theorem cuts_append (depth : Nat) (s t : List Char) :
    cuts depth (s ++ t) = cuts depth s + cuts (braceDepth depth s) t := by
  induction s generalizing depth with
  | nil => simp
  | cons c s ih =>
      rw [List.cons_append, cuts, cuts, ih, braceDepth_cons]
      omega

/-- Where more braces are open, a text is cut at no more places. -/
theorem cuts_le_of_le {d e : Nat} (h : d ≤ e) (s : List Char) : cuts e s ≤ cuts d s := by
  induction s generalizing d e with
  | nil => exact Nat.le_refl 0
  | cons c s ih =>
      have hrest := ih (braceStep_le_of_le h c)
      rw [cuts, cuts]
      split
      · next he =>
        have hd : d = 0 := by omega
        rw [if_pos ⟨he.1, hd⟩]
        omega
      · omega

theorem cuts_of_allBlank (depth : Nat) {b : List Char} (h : allBlank b = true) :
    cuts depth b = 0 := by
  induction b with
  | nil => rfl
  | cons c b ih =>
      rw [allBlank_iff] at h
      have hc : isBlank c = true := h c List.mem_cons_self
      have hcomma : c ≠ ',' := by
        rintro rfl
        revert hc
        decide
      rw [cuts, braceStep_of_isBlank depth hc, if_neg (fun hcut => hcomma hcut.1), Nat.zero_add]
      exact ih (allBlank_iff.2 fun d hd => h d (List.mem_cons_of_mem _ hd))

/-- Blanks at the ends are no places to cut. -/
theorem cuts_trim {s : List Char} (h : cuts 0 s = 0) : cuts 0 (trim s) = 0 := by
  obtain ⟨a, b, ha, -, hs⟩ := exists_trim s
  rw [hs, cuts_append, cuts_append, braceDepth_of_allBlank 0 ha] at h
  omega

/-! ## Pieces -/

theorem segmentsFrom_cut (s : List Char) :
    segmentsFrom 0 (',' :: s) = [] :: segmentsFrom 0 s := by
  simp [segmentsFrom]

/-- A character at which a list is not cut belongs to the first piece. -/
theorem exists_segmentsFrom_cons {depth : Nat} {c : Char} (s : List Char)
    (h : ¬ (c = ',' ∧ depth = 0)) :
    ∃ rest piece, segmentsFrom (braceStep depth c) s = piece :: rest ∧
      segmentsFrom depth (c :: s) = (c :: piece) :: rest := by
  have hne : ∀ (d : Nat) (t : List Char), segmentsFrom d t ≠ [] := by
    intro d t
    cases t with
    | nil => simp [segmentsFrom]
    | cons e t =>
        unfold segmentsFrom
        split
        · simp
        · dsimp only
          split <;> simp
  have hdepth : (if c = '{' then depth + 1 else if c = '}' then depth - 1 else depth) =
      braceStep depth c := rfl
  cases hs : segmentsFrom (braceStep depth c) s with
  | nil => exact absurd hs (hne _ _)
  | cons piece rest =>
      refine ⟨rest, piece, rfl, ?_⟩
      rw [segmentsFrom, if_neg h]
      simp only [hdepth, hs]

/-- A text has one piece more than places at which it is cut. -/
theorem length_segmentsFrom (depth : Nat) (s : List Char) :
    (segmentsFrom depth s).length = cuts depth s + 1 := by
  induction s generalizing depth with
  | nil => rfl
  | cons c s ih =>
      by_cases h : c = ',' ∧ depth = 0
      · obtain ⟨rfl, rfl⟩ := h
        have hstep : braceStep 0 ',' = 0 := rfl
        rw [segmentsFrom_cut, List.length_cons, ih, cuts, hstep, if_pos ⟨rfl, rfl⟩]
        omega
      · obtain ⟨rest, piece, hs, hcs⟩ := exists_segmentsFrom_cons s h
        have hlen := ih (braceStep depth c)
        rw [hs, List.length_cons] at hlen
        rw [hcs, List.length_cons, cuts, if_neg h, hlen, Nat.zero_add]

/-- No character is lost but the commas at which a text is cut. -/
theorem count_flatten_segmentsFrom (depth : Nat) (s : List Char) {d : Char} (hd : d ≠ ',') :
    (segmentsFrom depth s).flatten.count d = s.count d := by
  induction s generalizing depth with
  | nil => rfl
  | cons c s ih =>
      by_cases h : c = ',' ∧ depth = 0
      · obtain ⟨rfl, rfl⟩ := h
        rw [segmentsFrom_cut, List.flatten_cons, List.nil_append, ih,
          List.count_cons_of_ne hd.symm]
      · obtain ⟨rest, piece, hs, hcs⟩ := exists_segmentsFrom_cons s h
        have hcount := ih (braceStep depth c)
        rw [hs, List.flatten_cons] at hcount
        rw [hcs, List.flatten_cons, List.cons_append, List.count_cons, hcount, List.count_cons]

/-- A text in front of a cut is a piece of its own. -/
theorem segmentsFrom_append_cut {depth : Nat} {s : List Char} (t : List Char)
    (hcuts : cuts depth s = 0) (hdepth : braceDepth depth s = 0) :
    segmentsFrom depth (s ++ ',' :: t) = s :: segmentsFrom 0 t := by
  induction s generalizing depth with
  | nil =>
      obtain rfl : depth = 0 := hdepth
      exact segmentsFrom_cut t
  | cons c s ih =>
      have h : ¬ (c = ',' ∧ depth = 0) := fun h => by
        rw [cuts, if_pos h] at hcuts
        omega
      rw [cuts, if_neg h, Nat.zero_add] at hcuts
      obtain ⟨rest, piece, hs, hcs⟩ := exists_segmentsFrom_cons (s ++ ',' :: t) h
      rw [ih hcuts hdepth] at hs
      obtain ⟨rfl, rfl⟩ := List.cons.inj hs
      rw [List.cons_append, hcs]

theorem segmentsFrom_of_cuts_eq_zero {depth : Nat} {s : List Char} (h : cuts depth s = 0) :
    segmentsFrom depth s = [s] := by
  induction s generalizing depth with
  | nil => rfl
  | cons c s ih =>
      have hc : ¬ (c = ',' ∧ depth = 0) := fun hc => by
        rw [cuts, if_pos hc] at h
        omega
      rw [cuts, if_neg hc, Nat.zero_add] at h
      obtain ⟨rest, piece, hs, hcs⟩ := exists_segmentsFrom_cons s hc
      rw [ih h] at hs
      obtain ⟨rfl, rfl⟩ := List.cons.inj hs
      exact hcs

/-- A piece is not cut any further. -/
theorem cuts_of_mem_segmentsFrom (depth : Nat) (s : List Char) :
    (∀ piece, (segmentsFrom depth s).head? = some piece → cuts depth piece = 0) ∧
      ∀ piece ∈ (segmentsFrom depth s).tail, cuts 0 piece = 0 := by
  induction s generalizing depth with
  | nil => simp [segmentsFrom]
  | cons c s ih =>
      by_cases h : c = ',' ∧ depth = 0
      · obtain ⟨rfl, rfl⟩ := h
        rw [segmentsFrom_cut]
        refine ⟨fun piece hp => ?_, fun piece hp => ?_⟩
        · obtain rfl : [] = piece := by simpa using hp
          rfl
        · obtain ⟨hhead, htail⟩ := ih 0
          cases hs : segmentsFrom 0 s with
          | nil =>
              rw [List.tail_cons, hs] at hp
              simp at hp
          | cons first rest =>
              rw [hs] at hhead htail
              rw [List.tail_cons, hs] at hp
              rcases List.mem_cons.1 hp with rfl | hp
              · exact hhead _ rfl
              · exact htail _ hp
      · obtain ⟨rest, piece, hs, hcs⟩ := exists_segmentsFrom_cons s h
        obtain ⟨hhead, htail⟩ := ih (braceStep depth c)
        rw [hs] at hhead htail
        rw [hcs]
        refine ⟨fun p hp => ?_, htail⟩
        obtain rfl : c :: piece = p := by simpa using hp
        rw [cuts, if_neg h, Nat.zero_add]
        exact hhead piece rfl

theorem cuts_of_mem_segments {s piece : List Char} (h : piece ∈ segments s) : cuts 0 piece = 0 := by
  obtain ⟨hhead, htail⟩ := cuts_of_mem_segmentsFrom 0 s
  rw [segments] at h
  cases hs : segmentsFrom 0 s with
  | nil =>
      rw [hs] at h
      simp at h
  | cons first rest =>
      rw [hs] at h hhead htail
      rcases List.mem_cons.1 h with rfl | h
      · exact hhead _ rfl
      · exact htail _ h

/-! ## Parameters of a list -/

/-- A parameter that a list can hold: it is read from its raw text, and a list is not cut in it. -/
structure Listed (p : Parameter) : Prop where
  parsed : ofText p.raw = p
  nonempty : p.raw ≠ []
  uncut : cuts 0 p.raw = 0

theorem Listed.trim_raw {p : Parameter} (h : p.Listed) : trim p.raw = p.raw :=
  congrArg raw h.parsed

theorem Listed.allBlank_eq_false {p : Parameter} (h : p.Listed) : allBlank p.raw = false := by
  rw [Bool.eq_false_iff]
  intro hblank
  have hnil := trim_eq_nil.2 hblank
  rw [h.trim_raw] at hnil
  exact h.nonempty hnil

theorem listed_ofText {s : List Char} (hblank : allBlank s = false) (hcuts : cuts 0 s = 0) :
    (ofText s).Listed where
  parsed := by simp [ofText, trim_trim]
  nonempty := by
    intro hnil
    rw [trim_eq_nil.1 hnil] at hblank
    exact Bool.false_ne_true hblank.symm
  uncut := cuts_trim hcuts

theorem ofText_blank_append {a : List Char} (s : List Char) (ha : allBlank a = true) :
    ofText (a ++ s) = ofText s := by
  have htrim := trim_blank_append_blank s ha allBlank_nil
  rw [List.append_nil] at htrim
  rw [ofText, ofText, htrim]

/-- A piece of a list is read as its parameter, whatever blanks stand in front. -/
theorem Listed.ofTexts_blank_append {p : Parameter} (h : p.Listed) {a : List Char}
    (pieces : List (List Char)) (ha : allBlank a = true) :
    ofTexts ((a ++ p.raw) :: pieces) = p :: ofTexts pieces := by
  have hblank : allBlank (a ++ p.raw) = false := by
    rw [Bool.eq_false_iff]
    intro hblank
    exact Bool.false_ne_true (h.allBlank_eq_false.symm.trans (allBlank_append.1 hblank).2)
  simp [ofTexts, hblank, ofText_blank_append p.raw ha, h.parsed]

theorem listed_of_mem_ofList {inner : List Char} {p : Parameter} (h : p ∈ ofList inner) :
    p.Listed := by
  obtain ⟨piece, hpiece, rfl⟩ := List.mem_map.1 h
  obtain ⟨hmem, hblank⟩ := List.mem_filter.1 hpiece
  exact listed_ofText (by simpa using hblank) (cuts_of_mem_segments hmem)

/-! ## Joined lists -/

/-- The number of times that a character occurs in the raw texts of some parameters. -/
def rawCount (d : Char) (params : List Parameter) : Nat :=
  (params.flatMap raw).count d

theorem rawCount_cons (d : Char) (p : Parameter) (params : List Parameter) :
    rawCount d (p :: params) = p.raw.count d + rawCount d params := by
  rw [rawCount, List.flatMap_cons, List.count_append, rawCount]

theorem rawCount_eq_zero_iff {d : Char} {params : List Parameter} :
    rawCount d params = 0 ↔ ∀ p ∈ params, d ∉ p.raw := by
  rw [rawCount, List.count_eq_zero, List.mem_flatMap]
  simp only [not_exists, not_and]

theorem joinRaws_cons_cons (p q : Parameter) (params : List Parameter) :
    Command.joinRaws (p :: q :: params) =
      p.raw ++ ',' :: ' ' :: Command.joinRaws (q :: params) := rfl

theorem count_joinRaws {d : Char} (hcomma : d ≠ ',') (hspace : d ≠ ' ')
    (params : List Parameter) : (Command.joinRaws params).count d = rawCount d params := by
  induction params with
  | nil => rfl
  | cons p params ih =>
      cases params with
      | nil => simp [Command.joinRaws, rawCount]
      | cons q params =>
          rw [joinRaws_cons_cons, List.count_append, List.count_cons_of_ne hcomma.symm,
            List.count_cons_of_ne hspace.symm, ih, rawCount_cons d p]

/-- No character occurs more often in the parameters of a list than in the list. -/
theorem rawCount_ofList_le {d : Char} (hd : d ≠ ',') (inner : List Char) :
    rawCount d (ofList inner) ≤ inner.count d := by
  have hkept : ∀ pieces : List (List Char),
      rawCount d (ofTexts pieces) ≤ pieces.flatten.count d := by
    intro pieces
    induction pieces with
    | nil => exact Nat.le_refl 0
    | cons piece pieces ih =>
        rw [List.flatten_cons, List.count_append]
        by_cases hblank : allBlank piece = true
        · have hskip : ofTexts (piece :: pieces) = ofTexts pieces := by simp [ofTexts, hblank]
          rw [hskip]
          omega
        · have hkeep : ofTexts (piece :: pieces) = ofText piece :: ofTexts pieces := by
            simp [ofTexts, hblank]
          have htrim : (ofText piece).raw.count d ≤ piece.count d := count_trim_le d piece
          rw [hkeep, rawCount_cons]
          omega
  calc rawCount d (ofList inner)
      ≤ (segmentsFrom 0 inner).flatten.count d := hkept _
    _ = inner.count d := count_flatten_segmentsFrom 0 inner hd

/-- Joined parameters come back as they were, if only the last one leaves a brace open. -/
theorem ofList_joinRaws {params : List Parameter} (hlisted : ∀ p ∈ params, p.Listed)
    (hclosed : ∀ p ∈ params.dropLast, braceDepth 0 p.raw = 0) :
    ofList (Command.joinRaws params) = params := by
  -- the induction needs the space that stands behind each comma
  suffices hpad : ∀ b, allBlank b = true →
      ofTexts (segmentsFrom 0 (b ++ Command.joinRaws params)) = params from hpad [] rfl
  intro b hb
  induction params generalizing b with
  | nil =>
      simp [Command.joinRaws, segmentsFrom_of_cuts_eq_zero (cuts_of_allBlank 0 hb), ofTexts, hb]
  | cons p params ih =>
      have hp := hlisted p List.mem_cons_self
      have hcuts : cuts 0 (b ++ p.raw) = 0 := by
        rw [cuts_append, cuts_of_allBlank 0 hb, braceDepth_of_allBlank 0 hb, hp.uncut]
      cases params with
      | nil =>
          rw [Command.joinRaws, segmentsFrom_of_cuts_eq_zero hcuts, hp.ofTexts_blank_append [] hb]
          rfl
      | cons q params =>
          have hdepth : braceDepth 0 (b ++ p.raw) = 0 := by
            rw [braceDepth_append, braceDepth_of_allBlank 0 hb]
            exact hclosed p (by simp)
          have hrest := ih (fun r hr => hlisted r (List.mem_cons_of_mem _ hr))
            (fun r hr => hclosed r (List.mem_cons_of_mem _ hr)) [' '] rfl
          rw [joinRaws_cons_cons, ← List.append_assoc, segmentsFrom_append_cut _ hcuts hdepth,
            hp.ofTexts_blank_append _ hb]
          exact congrArg (p :: ·) hrest

/-! ## Merged parameters -/

theorem Listed.cuts_eq_zero {p : Parameter} (h : p.Listed) (depth : Nat) :
    cuts depth p.raw = 0 := by
  have hle := cuts_le_of_le (Nat.zero_le depth) p.raw
  rw [h.uncut] at hle
  omega

/-- A list is cut between two parameters if the first one leaves no brace open. -/
theorem cuts_joinRaws_cons_cons {p : Parameter} (h : p.Listed) (q : Parameter)
    (params : List Parameter) (depth : Nat) :
    cuts depth (Command.joinRaws (p :: q :: params)) =
      (if braceDepth depth p.raw = 0 then 1 else 0) +
        cuts (braceDepth depth p.raw) (Command.joinRaws (q :: params)) := by
  have hcomma : braceStep (braceDepth depth p.raw) ',' = braceDepth depth p.raw := rfl
  have hspace : braceStep (braceDepth depth p.raw) ' ' = braceDepth depth p.raw := rfl
  rw [joinRaws_cons_cons, cuts_append, h.cuts_eq_zero, cuts, cuts, hcomma, hspace]
  simp

/-- A list of joined parameters is cut between them at most. -/
theorem cuts_joinRaws_le {params : List Parameter} (hlisted : ∀ p ∈ params, p.Listed)
    (depth : Nat) : cuts depth (Command.joinRaws params) ≤ params.length - 1 := by
  induction params generalizing depth with
  | nil => exact Nat.le_refl 0
  | cons p params ih =>
      have hp := hlisted p List.mem_cons_self
      cases params with
      | nil =>
          rw [Command.joinRaws, hp.cuts_eq_zero]
          exact Nat.zero_le _
      | cons q params =>
          have hrest := ih (fun r hr => hlisted r (List.mem_cons_of_mem _ hr))
            (braceDepth depth p.raw)
          rw [cuts_joinRaws_cons_cons hp]
          simp only [List.length_cons] at hrest ⊢
          split <;> omega

theorem cuts_joinRaws_lt {params : List Parameter} (hlisted : ∀ p ∈ params, p.Listed)
    {p : Parameter} (hmem : p ∈ params.dropLast) (hopen : braceDepth 0 p.raw ≠ 0)
    (depth : Nat) : cuts depth (Command.joinRaws params) + 1 < params.length := by
  induction params generalizing depth with
  | nil => simp at hmem
  | cons r params ih =>
      have hr := hlisted r List.mem_cons_self
      have hrest : ∀ q ∈ params, q.Listed := fun q hq => hlisted q (List.mem_cons_of_mem _ hq)
      cases params with
      | nil => simp at hmem
      | cons q params =>
          rw [cuts_joinRaws_cons_cons hr]
          have hle := cuts_joinRaws_le hrest (braceDepth depth r.raw)
          rw [List.dropLast_cons_cons] at hmem
          rcases List.mem_cons.1 hmem with rfl | hmem
          · have hmore := braceDepth_le_of_le (Nat.zero_le depth) p.raw
            rw [if_neg (by omega)]
            simp only [List.length_cons] at hle ⊢
            omega
          · have hlt := ih hrest hmem (braceDepth depth r.raw)
            simp only [List.length_cons] at hlt ⊢
            split <;> omega

/-- A brace that is left open in front of another parameter merges the two. -/
theorem length_ofList_joinRaws_lt {params : List Parameter} (hlisted : ∀ p ∈ params, p.Listed)
    {p : Parameter} (hmem : p ∈ params.dropLast) (hopen : braceDepth 0 p.raw ≠ 0) :
    (ofList (Command.joinRaws params)).length < params.length := by
  calc (ofList (Command.joinRaws params)).length
      ≤ (segmentsFrom 0 (Command.joinRaws params)).length := by
        rw [ofList, ofTexts, List.length_map]
        exact List.length_filter_le _ _
    _ = cuts 0 (Command.joinRaws params) + 1 := length_segmentsFrom 0 _
    _ < params.length := cuts_joinRaws_lt hlisted hmem hopen 0

/-! ## Well-formed parameters -/

theorem fits_of_fitsListFrom {depth : Nat} {s : List Char} (h : fitsListFrom depth s = true) :
    cuts depth s = 0 ∧ braceDepth depth s = 0 ∧ ']' ∉ s := by
  induction s generalizing depth with
  | nil => exact ⟨rfl, by simpa [fitsListFrom] using h, List.not_mem_nil⟩
  | cons c s ih =>
      have hstep : fitsListFrom (braceStep depth c) s = true ∧ c ≠ ']' ∧
          ¬ (c = ',' ∧ depth = 0) := by
        unfold fitsListFrom at h
        unfold braceStep
        split at h
        · next ho =>
          subst ho
          exact ⟨by simpa using h, by decide, by simp⟩
        · next ho =>
          split at h
          · next hcl =>
            subst hcl
            exact ⟨by simpa using (Bool.and_eq_true_iff.1 h).2, by decide, by simp⟩
          · next hcl =>
            split at h
            · simp at h
            · next hb =>
              split at h
              · simp at h
              · next hcut => exact ⟨by simpa [ho, hcl] using h, hb, hcut⟩
      obtain ⟨hrest, hc, hcut⟩ := hstep
      obtain ⟨hcuts, hdepth, hmem⟩ := ih hrest
      refine ⟨?_, hdepth, ?_⟩
      · rw [cuts, if_neg hcut, hcuts]
      · intro hin
        rcases List.mem_cons.1 hin with rfl | hin
        · exact hc rfl
        · exact hmem hin

/-- A **well-formed** parameter: it is read from its raw text, which is not blank and fits into a
list. -/
structure WellFormed (p : Parameter) : Prop where
  parsed : ofText p.raw = p
  nonempty : p.raw ≠ []
  fits : fitsList p.raw = true

instance (p : Parameter) : Decidable p.WellFormed :=
  decidable_of_iff (ofText p.raw = p ∧ p.raw ≠ [] ∧ fitsList p.raw = true)
    ⟨fun ⟨hparsed, hnonempty, hfits⟩ => ⟨hparsed, hnonempty, hfits⟩,
      fun h => ⟨h.parsed, h.nonempty, h.fits⟩⟩

theorem WellFormed.listed {p : Parameter} (h : p.WellFormed) : p.Listed :=
  ⟨h.parsed, h.nonempty, (fits_of_fitsListFrom h.fits).1⟩

theorem WellFormed.closed {p : Parameter} (h : p.WellFormed) : braceDepth 0 p.raw = 0 :=
  (fits_of_fitsListFrom h.fits).2.1

end Parameter

end StepScript
