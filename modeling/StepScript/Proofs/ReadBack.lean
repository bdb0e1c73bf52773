import StepScript.Proofs.DroppedBlock
import StepScript.Proofs.Uncommented

/-!
# Parameters that are written and read again

A line is read leniently: text in front of the list, blank pieces of the list and blanks around the
others are dropped, and braces and brackets need not match. Written in canonical form and read
again, a command still has its keyword, and the cuts of its list stand where they were: of the
parameters that were cut out of one list, only the last can leave a brace open. What can change is
where a comment starts. In front of the list there may be open braces, in which a hash mark behind a
closing bracket is still data; the canonical line drops them. So the command comes back exactly if
its list, taken on its own, holds no comment.

Main statements:

* `Parameter.ofList_joinRaws_ofList` — the parameters of a list, joined to a list again;
* `Script.rereadable_iff` — when the canonical line of a command that was read is read as before;
* `Script.readsBack_readLine_iff` — so when a block that is taken out and appended is the same;
* `Script.reserialized_of_parseLine` — what a command comes back as.
-/

set_option autoImplicit false

namespace StepScript

open Text

namespace Parameter

/-! ## Pieces of a list -/

/-- A text is **cut into** pieces at commas behind which no brace is open. -/
inductive CutInto : Nat → List Char → List (List Char) → Prop
  | whole {depth : Nat} {s : List Char} (h : cuts depth s = 0) : CutInto depth s [s]
  | cut {depth : Nat} {s t : List Char} {pieces : List (List Char)} (hcuts : cuts depth s = 0)
      (hdepth : braceDepth depth s = 0) (h : CutInto 0 t pieces) :
      CutInto depth (s ++ ',' :: t) (s :: pieces)

theorem cutInto_segmentsFrom (depth : Nat) (s : List Char) :
    CutInto depth s (segmentsFrom depth s) := by
  induction s generalizing depth with
  | nil => exact .whole rfl
  | cons c s ih =>
      by_cases h : c = ',' ∧ depth = 0
      · obtain ⟨rfl, rfl⟩ := h
        rw [segmentsFrom_cut]
        exact .cut (s := []) rfl rfl (ih 0)
      · -- the character belongs to the first piece
        obtain ⟨rest, piece, hs, hcs⟩ := exists_segmentsFrom_cons s h
        have hrest := ih (braceStep depth c)
        have hcuts : ∀ t, cuts (braceStep depth c) t = 0 → cuts depth (c :: t) = 0 := fun t ht => by
          rw [cuts, if_neg h, ht]
        rw [hs] at hrest
        rw [hcs]
        cases hrest with
        | whole huncut => exact .whole (hcuts _ huncut)
        | cut huncut hdepth htail => exact .cut (s := c :: piece) (hcuts _ huncut) hdepth htail

namespace CutInto

variable {depth : Nat} {s : List Char} {pieces : List (List Char)}

/-- Only the last piece leaves a brace open. -/
theorem braceDepth_eq_zero (h : CutInto depth s pieces) :
    ∀ piece ∈ pieces.dropLast, braceDepth 0 piece = 0 := by
  induction h with
  | whole => simp
  | @cut depth s t pieces _ hdepth htail ih =>
      have hne : pieces ≠ [] := by cases htail <;> simp
      rw [List.dropLast_cons_of_ne_nil hne]
      refine List.forall_mem_cons.2 ⟨?_, ih⟩
      have hle := braceDepth_le_of_le (Nat.zero_le depth) s
      omega

/-- The pieces hold what the text holds, but the commas between them. -/
theorem filter_flatten {p : Char → Bool} (hcomma : p ',' = false) (h : CutInto depth s pieces) :
    pieces.flatten.filter p = s.filter p := by
  induction h with
  | whole => simp
  | cut _ _ _ ih => simp [ih, hcomma]

end CutInto

/-! ## What is kept -/

theorem braceDepth_trim (depth : Nat) (s : List Char) :
    braceDepth depth (trim s) = braceDepth depth s := by
  obtain ⟨a, b, ha, hb, hs⟩ := exists_trim s
  rw [hs, braceDepth_append, braceDepth_append, braceDepth_of_allBlank _ ha,
    braceDepth_of_allBlank _ hb, ← hs]

section Filter

variable {p : Char → Bool} (hcomma : p ',' = false) (hblank : ∀ c, isBlank c = true → p c = false)

include hblank in
/-- The parameters of some texts hold what the texts hold, but blanks at the ends. -/
theorem filter_ofTexts (texts : List (List Char)) :
    ((ofTexts texts).flatMap raw).filter p = texts.flatten.filter p := by
  induction texts with
  | nil => rfl
  | cons s texts ih =>
      by_cases h : allBlank s = true
      · have hskip : ofTexts (s :: texts) = ofTexts texts := by simp [ofTexts, h]
        rw [hskip, ih, List.flatten_cons, List.filter_append, filter_eq_nil_of_allBlank hblank h,
          List.nil_append]
      · have hkeep : ofTexts (s :: texts) = ofText s :: ofTexts texts := by simp [ofTexts, h]
        have htrim : (ofText s).raw.filter p = s.filter p := filter_trim hblank s
        rw [hkeep, List.flatMap_cons, List.filter_append, ih, htrim, List.flatten_cons,
          List.filter_append]

include hcomma hblank

theorem filter_joinRaws (params : List Parameter) :
    (Command.joinRaws params).filter p = (params.flatMap raw).filter p := by
  have hspace : p ' ' = false := hblank ' ' (by decide)
  induction params with
  | nil => rfl
  | cons q params ih =>
      cases params with
      | nil => simp [Command.joinRaws]
      | cons r params =>
          rw [joinRaws_cons_cons, List.flatMap_cons, List.filter_append, List.filter_append, ← ih,
            List.filter_cons_of_neg (by simp [hcomma]), List.filter_cons_of_neg (by simp [hspace])]

/-- The parameters of a list, joined to a list again, hold what the list holds, but commas and
blanks. -/
theorem filter_joinRaws_ofList (inner : List Char) :
    (Command.joinRaws (ofList inner)).filter p = inner.filter p := by
  rw [filter_joinRaws hcomma hblank, ofList, filter_ofTexts hblank]
  exact (cutInto_segmentsFrom 0 inner).filter_flatten hcomma

end Filter

/-- What is kept in front of the last item that is kept stands in front of the last item. -/
theorem mem_dropLast_of_mem_dropLast_filter {α : Type} {p : α → Bool} {items : List α} {x : α}
    (h : x ∈ (items.filter p).dropLast) : x ∈ items.dropLast := by
  rcases List.eq_nil_or_concat items with rfl | ⟨front, last, rfl⟩
  · simp at h
  · rw [List.concat_eq_append, List.dropLast_concat]
    rw [List.concat_eq_append, List.filter_append] at h
    by_cases hlast : p last = true
    · rw [List.filter_cons_of_pos hlast, List.filter_nil, List.dropLast_concat] at h
      exact List.mem_of_mem_filter h
    · rw [List.filter_cons_of_neg hlast, List.filter_nil, List.append_nil] at h
      exact List.mem_of_mem_filter ((List.dropLast_sublist _).subset h)

/-- Of the parameters of a list, only the last can leave a brace open. -/
theorem braceDepth_of_mem_dropLast_ofList {inner : List Char} {q : Parameter}
    (h : q ∈ (ofList inner).dropLast) : braceDepth 0 q.raw = 0 := by
  rw [ofList, ofTexts, ← List.map_dropLast] at h
  obtain ⟨piece, hpiece, rfl⟩ := List.mem_map.1 h
  rw [ofText, braceDepth_trim]
  exact (cutInto_segmentsFrom 0 inner).braceDepth_eq_zero piece
    (mem_dropLast_of_mem_dropLast_filter hpiece)

/-- **The parameters of a list** come back from the list that they are joined to. -/
theorem ofList_joinRaws_ofList (inner : List Char) :
    ofList (Command.joinRaws (ofList inner)) = ofList inner :=
  ofList_joinRaws (fun _ => listed_of_mem_ofList) fun _ => braceDepth_of_mem_dropLast_ofList

end Parameter

/-! ## Comments on canonical lines -/

theorem Language.cutComment_standard_eq_none_iff {s : List Char} :
    Language.standard.cutComment s = none ↔ Skips ['#'] .outside s := by
  rw [cutComment_of_comment_ne_nil (by decide : standard.comment ≠ [])]
  exact skips_iff.symm

/-- On a canonical line, only the list can hold a comment. -/
theorem Command.cutComment_toLine_eq_none_iff (c : Command) :
    Language.standard.cutComment c.toLine = none ↔
      Language.standard.cutComment ('[' :: joinRaws c.params ++ [']']) = none := by
  rw [Language.cutComment_standard_eq_none_iff, Language.cutComment_standard_eq_none_iff, toLine_eq,
    skips_append_iff, Keyword.after_spelling, listText]
  cases hparams : c.params with
  | nil => exact iff_of_true ⟨c.keyword.skips_spelling, Skips.nil⟩ (skips_iff.2 (by decide))
  | cons q params =>
      rw [List.isEmpty_cons, if_neg Bool.false_ne_true, List.cons_append, skips_cons_iff]
      exact ⟨fun h => h.2.2, fun h => ⟨c.keyword.skips_spelling, rfl, h⟩⟩

namespace Script

/-! ## The list of a line -/

/-- What stands in the list of a line, if it has one. -/
def lineList? (line : List Char) : Option (List Char) :=
  (Keyword.atStart? (trim (Language.standard.code line))).bind fun (_, rest) =>
    listBody? (trimStart rest)

theorem lineParams_eq (line : List Char) :
    lineParams .standard line = ((lineList? line).map Parameter.ofList).getD [] := by
  unfold lineParams lineList?
  cases Keyword.atStart? (trim (Language.standard.code line)) <;> rfl

/-- The list of a line, taken on its own, holds no comment. -/
def ListUncommented (line : List Char) : Prop :=
  ∀ inner ∈ lineList? line, Language.standard.cutComment ('[' :: inner ++ [']']) = none

instance (line : List Char) : Decidable (ListUncommented line) :=
  inferInstanceAs (Decidable (∀ inner ∈ lineList? line, _))

/-- No brace is open where the list of a line starts. -/
def ListOutside (line : List Char) : Prop :=
  Parameter.braceDepth 0 ((Language.standard.code line).takeWhile (· != '[')) = 0

instance (line : List Char) : Decidable (ListOutside line) :=
  inferInstanceAs (Decidable (_ = _))

/-- The list of a line starts at the first bracket of its code. -/
theorem exists_of_lineList? {line inner : List Char} (h : lineList? line = some inner) :
    ∃ front b, Language.standard.code line = front ++ ('[' :: inner ++ [']']) ++ b ∧
      '[' ∉ front := by
  obtain ⟨⟨k, rest⟩, hstart, hbody⟩ := Option.bind_eq_some_iff.1 h
  obtain ⟨before, hrest, hbefore⟩ := exists_of_listBody? hbody
  obtain ⟨a, b, ha, -, hcode⟩ := exists_trim (Language.standard.code line)
  rw [(Keyword.eq_of_atStart? hstart).1, ← indentation_append_trimStart rest, hrest] at hcode
  have hblank : ∀ {s : List Char}, allBlank s = true → '[' ∉ s := fun hs hmem => by
    have hbracket := allBlank_iff.1 hs _ hmem
    revert hbracket
    decide
  have hspelling : '[' ∉ k.spelling := fun hmem => by
    have hbracket := Keyword.isDelimiter_of_mem_spelling hmem
    revert hbracket
    decide
  refine ⟨a ++ k.spelling ++ indentation rest ++ before, b, ?_, ?_⟩
  · rw [hcode]
    simp only [List.append_assoc, List.cons_append]
  · simp [hblank ha, hblank (allBlank_indentation rest), hspelling, hbefore]

/-- If no brace is open where the list starts, a comment in it would have been cut off. -/
theorem ListOutside.listUncommented {line : List Char} (h : ListOutside line) :
    ListUncommented line := by
  intro inner hinner
  obtain ⟨front, b, hcode, hfront⟩ := exists_of_lineList? hinner
  have hopens : ∀ c ∈ front, (c != '[') = true := fun c hc =>
    bne_iff_ne.2 fun heq => hfront (heq ▸ hc)
  have htake : (Language.standard.code line).takeWhile (· != '[') = front := by
    rw [hcode, List.append_assoc, List.takeWhile_append_of_pos hopens, List.cons_append,
      List.cons_append, List.takeWhile_cons_of_neg (by decide), List.append_nil]
  have houtside : Nesting.outside.after front = .outside := by
    have hdepth : (Nesting.outside.after front).depth = 0 := by
      rw [Nesting.depth_after, ← htake]
      exact h
    have hlist := Nesting.inList_after hfront (n := .outside) rfl
    exact Nesting.eq_outside_of_isOutside (by simp [Nesting.isOutside, hdepth, hlist])
  have hskips := Language.skips_code line
  rw [hcode, skips_append_iff, skips_append_iff, houtside] at hskips
  exact Language.cutComment_standard_eq_none_iff.2 hskips.1.2

/-! ## Commands that are read again -/

variable {line : List Char} {number : Nat} {c : Command}

theorem eq_of_parseLine (h : parseLine .standard line number = some c) :
    c.line = number ∧ c.params = lineParams .standard line := by
  unfold parseLine at h
  unfold lineParams
  cases hstart : Keyword.atStart? (trim (Language.standard.code line)) with
  | none =>
      rw [hstart] at h
      cases h
  | some p =>
      rw [hstart] at h
      obtain rfl := Option.some.inj h
      exact ⟨rfl, rfl⟩

/-- **When a command that was read is read as before** from its canonical line. -/
theorem rereadable_iff (h : c.params = lineParams .standard line) :
    c.Rereadable ↔ ListUncommented line := by
  rw [lineParams_eq] at h
  cases hlist : lineList? line with
  | none =>
      rw [hlist] at h
      have hparams : c.params = [] := h
      refine iff_of_true ⟨by simp [hparams], ?_⟩ fun inner hinner => ?_
      · rw [Command.cutComment_toLine_eq_none_iff, hparams]
        decide
      · rw [hlist] at hinner
        cases hinner
  | some inner =>
      rw [hlist] at h
      have hparams : c.params = Parameter.ofList inner := h
      have hmarks : ('[' :: Command.joinRaws c.params ++ [']']).filter isMark =
          ('[' :: inner ++ [']']).filter isMark := by
        have hopen : isMark '[' = true := by decide
        rw [List.filter_append, List.filter_append, List.filter_cons_of_pos hopen,
          List.filter_cons_of_pos hopen, hparams,
          Parameter.filter_joinRaws_ofList (by decide) fun _ => isMark_of_isBlank]
      have hcomment : Language.standard.cutComment c.toLine = none ↔ ListUncommented line := by
        rw [Command.cutComment_toLine_eq_none_iff, Language.cutComment_standard_eq_none_iff,
          skips_congr hmarks, ← Language.cutComment_standard_eq_none_iff, ListUncommented, hlist]
        simp
      have hclosed : ∀ q ∈ c.params.dropLast, Parameter.braceDepth 0 q.raw = 0 := by
        rw [hparams]
        exact fun _ => Parameter.braceDepth_of_mem_dropLast_ofList
      exact ⟨fun hreread => hcomment.1 hreread.uncommented, fun h => ⟨hclosed, hcomment.2 h⟩⟩

/-- A block that is taken out and appended keeps its parameters exactly if the list of its line,
taken on its own, holds no comment. -/
theorem readsBack_readLine_iff (l : CommandLine) :
    (readLine .standard l).ReadsBack ↔ ListUncommented l.text :=
  (Command.readsBack_iff fun _ => listed_of_mem_lineParams).trans (rereadable_iff rfl)

/-- What is promised of the canonical line of a command that was read from a line. -/
structure Reserialized (line : List Char) (number : Nat) (c : Command) : Prop where
  /-- It is read as a command with the same keyword. -/
  reads : ∃ params, parseLine .standard c.toLine number = some ⟨number, c.keyword, params⟩
  /-- It is read as the same command exactly if the list of the line, taken on its own, holds no
  comment. -/
  readsSame_iff : parseLine .standard c.toLine number = some c ↔ ListUncommented line
  /-- So it is if the list starts outside braces. -/
  readsSame : ListOutside line → parseLine .standard c.toLine number = some c

/-- **What a command comes back as**, when it is written in canonical form and read again. -/
theorem reserialized_of_parseLine (h : parseLine .standard line number = some c) :
    Reserialized line number c := by
  obtain ⟨rfl, hparams⟩ := eq_of_parseLine h
  have hlisted : ∀ p ∈ c.params, p.Listed := fun p hp => listed_of_mem_lineParams (hparams ▸ hp)
  have hiff : parseLine .standard c.toLine c.line = some c ↔ ListUncommented line := by
    rw [← rereadable_iff hparams, ← Command.lineParams_toLine_iff allBlank_nil hlisted,
      Command.parseLine_toLine_eq, List.nil_append, Option.some.injEq]
    exact ⟨congrArg Command.params, fun heq => by rw [heq]⟩
  exact ⟨⟨_, Command.parseLine_toLine_eq c c.line⟩, hiff, fun hout => hiff.2 hout.listUncommented⟩

/-- A list with a blank piece and a bracket too many, behind other text and in front of a comment. -/
theorem reserialized_of_parseLine_lenient :
    let line := "输入 x [ \x7b#a\x7d ,, b] ] # c".toList
    let c : Command := ⟨7, .input, [.ofText "\x7b#a\x7d".toList, .ofText "b]".toList]⟩
    parseLine .standard line 7 = some c ∧ ListOutside line ∧ Reserialized line 7 c := by
  intro line c
  have hc : parseLine .standard line 7 = some c := by decide
  exact ⟨hc, by decide, reserialized_of_parseLine hc⟩

/-- An open brace in front of the list hides a comment in it, until the line is written anew. -/
theorem parseLine_toLine_ne_open_brace :
    let c : Command := ⟨1, .click, [.ofText "a] # b".toList]⟩
    parseLine .standard "点击 \x7bx [a] # b]".toList 1 = some c ∧
      c.toLine = "点击 [a] # b]".toList ∧
      parseLine .standard c.toLine 1 = some ⟨1, .click, [.ofText "a".toList]⟩ ∧
      parseLine .standard c.toLine 1 ≠ some c := by
  decide

end Script

end StepScript
