import StepScript.Proofs.Boundaries
import StepScript.Proofs.ContentEdits
import StepScript.Proofs.MovedLine
import StepScript.Proofs.OpenedEditor
import StepScript.Proofs.ParameterUpdate

/-!
# A block that is dropped

While a block is dragged, the nearest boundary says where it would be dropped. In the standard
language a drop there always moves the block: it is put in front of the block at the boundary, or,
behind the last one, its line is taken out and its command appended in canonical form. Both ways do
the same to the sequence of the commands, provided that a command that is appended is read back from
its canonical line.

Main statements:

* `Script.exists_contents_moveLast` — a command that is moved behind all others;
* `Script.exists_contents_drop` — a drop at a boundary, in either way;
* `Editor.dropComposes_nearestIndex` — what becomes of a block that is dropped at the nearest
  boundary.
-/

set_option autoImplicit false

namespace StepScript

open Text Placement

/-! ## Reading back -/

/-- Whether the canonical line of a command is read as a command with the same content. -/
def Command.ReadsBack (c : Command) : Prop :=
  (Script.parseLine .standard c.toLine c.line).any (fun d => d.sameContent c) = true

instance (c : Command) : Decidable c.ReadsBack :=
  inferInstanceAs (Decidable (_ = true))

theorem Command.readsBack_iff {c : Command} (hlisted : ∀ p ∈ c.params, p.Listed) :
    c.ReadsBack ↔ c.Rereadable := by
  rw [ReadsBack, parseLine_toLine_eq, ← lineParams_toLine_iff allBlank_nil hlisted]
  simp [sameContent]

namespace Script

variable {script : List Char}

/-! ## Carriage returns -/

theorem not_mem_pushLine {d : Char} (hd : d ≠ '\n') {s line : List Char} (hs : d ∉ s)
    (hline : d ∉ line) : d ∉ pushLine s line := by
  unfold pushLine
  split
  · exact hline
  · split <;> simp [hd, hs, hline]

/-- A command that is written without carriage returns brings none into a script. -/
theorem normal_append {c : Command} (h : '\r' ∉ script) (hc : '\r' ∉ c.toLine) :
    '\r' ∉ append .standard script c := by
  have hindent : '\r' ∉ appendIndent (commandLines .standard script) := by
    unfold appendIndent
    split
    · exact List.not_mem_nil
    · split <;> decide
  have hstart : '\r' ∉ withMarker .standard script := by
    unfold withMarker
    split
    · exact h
    · exact not_mem_pushLine (by decide) h (by decide)
  rw [append_eq]
  refine not_mem_pushLine (by decide) hstart ?_
  simp [hindent, hc]

/-- The canonical line of a command holds a character of no line only if the command line does. -/
theorem not_mem_toLine_readLine {d : Char} {l : CommandLine} (hd : d ∉ l.keyword.spelling)
    (hform : d ∉ [' ', '[', ',', ']']) (h : d ∉ l.text) :
    d ∉ (readLine .standard l).toLine := by
  have hcomma : d ≠ ',' := by
    rintro rfl
    exact hform (by decide)
  rw [← List.count_eq_zero, Command.count_toLine hd hform]
  exact Parameter.rawCount_eq_zero_iff.2 (not_mem_lineParams hcomma h)

theorem cr_not_mem_spelling (k : Keyword) : '\r' ∉ k.spelling := by
  cases k <;> decide

/-! ## Drops -/

theorem getElem?_contents {d : Nat} {c : Command} (h : (parse .standard script)[d]? = some c) :
    (contents script)[d]? = some c.content := by
  rw [contents, List.getElem?_map, h]
  rfl

theorem lt_count_of_getElem? {d : Nat} {c : Command} (h : (parse .standard script)[d]? = some c) :
    d < count .standard script := by
  rw [← length_parse Language.commentApart_standard]
  exact (List.getElem?_eq_some_iff.1 h).1

/-- **A command that is moved behind all others** and is read back there. -/
theorem exists_contents_moveLast {d : Nat} {c : Command}
    (hc : (parse .standard script)[d]? = some c) (hread : c.ReadsBack) (hnormal : '\r' ∉ script) :
    ∃ script', Editor.moveLast .standard script d = .ok (some script') ∧ '\r' ∉ script' ∧
      contents script' = (contents script).eraseIdx d ++ [c.content] := by
  have hlt : d < count .standard script := lt_count_of_getElem? hc
  obtain ⟨l, front, back, hp⟩ := exists_placed_of_lt hlt
  obtain rfl : readLine .standard l = c := Option.some.inj (hp.getElem?_parse.symm.trans hc)
  obtain ⟨rest, hremove, hcontents⟩ := exists_contents_remove hlt
  obtain ⟨rest', hremove', hlines⟩ := hp.exists_remove
  obtain rfl : rest = rest' := Except.ok.inj (hremove.symm.trans hremove')
  -- what is left are lines of the script, and the canonical line has no other characters
  have hrest : '\r' ∉ rest := by
    refine not_mem_of_lines_subset (by decide) ?_ hnormal
    rw [hlines, hp.lines_eq]
    exact ((List.sublist_cons_self l.text back).append_left front).subset
  have htext : '\r' ∉ l.text := fun hmem => hnormal <|
    (mem_iff_exists_line (by decide)).2 ⟨l.text, by rw [hp.lines_eq]; simp, hmem⟩
  have hlisted : ∀ p ∈ (readLine .standard l).params, p.Listed := fun p hmem =>
    listed_of_mem_lineParams hmem
  have hnewline : '\n' ∉ (readLine .standard l).toLine :=
    not_mem_toLine_readLine (Keyword.newline_not_mem_spelling _) (by decide) hp.newline_not_mem_text
  have hline : '\r' ∉ (readLine .standard l).toLine :=
    not_mem_toLine_readLine (cr_not_mem_spelling _) (by decide) htext
  refine ⟨append .standard rest (readLine .standard l), ?_, normal_append hrest hline, ?_⟩
  · rw [Editor.moveLast, hc, hremove]
  · rw [contents_append rest hnewline hlisted ((Command.readsBack_iff hlisted).1 hread), hcontents]

/-- **A drop at a boundary that is none of the slot of the block.** The command is taken out and
put in at the index where it lands. -/
theorem exists_contents_drop {d b : Nat} {c : Command} (hc : (parse .standard script)[d]? = some c)
    (hsize : count .standard script < UInt64.size) (hle : b ≤ count .standard script)
    (hfront : b ≠ d) (hback : b ≠ d + 1) (hread : b < count .standard script ∨ c.ReadsBack)
    (hnormal : '\r' ∉ script) :
    ∃ script', (EditorEdit.dropBlock d b).change .standard script = .ok (some script') ∧
      '\r' ∉ script' ∧
      contents script' = ((contents script).eraseIdx d).insertIdx (landing d b) c.content := by
  have hlt : d < count .standard script := lt_count_of_getElem? hc
  by_cases hb : b < count .standard script
  · -- the line is put in front of another one
    obtain ⟨script', hreorder, hcontents⟩ := exists_contents_reorder hfront.symm hlt hb
    obtain ⟨script'', hreorder', hmoved⟩ := exists_movedLine hfront.symm
      (List.getElem?_eq_getElem hlt) (List.getElem?_eq_getElem hb)
    obtain rfl : script' = script'' := Option.some.inj (hreorder.symm.trans hreorder')
    refine ⟨script', ?_, not_mem_of_lines_subset (by decide) hmoved.lines.perm.subset hnormal, ?_⟩
    · rw [EditorEdit.change, Editor.dropChange_of_lt hb, hreorder]
    · rw [moveItem, getElem?_contents hc, Option.map_some] at hcontents
      rw [← Option.some.inj hcontents, landing_eq hfront]
  · -- it is taken out, and its command appended
    obtain rfl : b = count .standard script := by omega
    obtain ⟨script', hlast, hnormal', hcontents⟩ :=
      exists_contents_moveLast hc (hread.resolve_left hb) hnormal
    refine ⟨script', ?_, hnormal', ?_⟩
    · rw [EditorEdit.change, Editor.dropChange_of_le (Nat.le_refl _) (by omega), if_neg (by omega),
        hlast]
    · have hend : landing d (count .standard script) = ((contents script).eraseIdx d).length := by
        rw [List.length_eraseIdx, length_contents, if_pos hlt, landing, if_neg (by omega)]
      rw [hcontents, hend, List.insertIdx_length_self]

end Script

/-! ## Dropped blocks -/

namespace Editor

/-- What is promised of the block with the index `d` that is dropped where `answer` says. -/
structure DropComposes (e : Editor) (d : Nat) (answer : Option Nat) : Prop where
  /-- There is no place exactly if no other block is there. -/
  none_iff : answer = none ↔ e.commands.length = 1
  /-- The place is a boundary, and none of the two around the block. -/
  place : ∀ b, answer = some b → b ≤ e.commands.length ∧ b ≠ d ∧ b ≠ d + 1
  /-- A drop there takes the command out and puts it in where it lands. Behind the last block, that
  is so if the command is read back from its canonical line. -/
  dropped : ∀ b, answer = some b → ∀ c, e.commands[d]? = some c →
    (b < e.commands.length ∨ c.ReadsBack) →
    (e.dropBlock d b).2 = .ok true ∧
      (e.dropBlock d b).1.commands.map Command.content =
        ((e.commands.map Command.content).eraseIdx d).insertIdx (landing d b) c.content
  /-- The block has another place than before. -/
  moves : ∀ b, answer = some b → landing d b ≠ d

/-- **A block that is dropped at the nearest boundary always moves there.** The positions may have
any arithmetic. The number of blocks is bounded since it is an index itself. -/
theorem dropComposes_nearestIndex {α : Type} (r : Ruler α) {e : Editor} (he : e.Opened .standard)
    (hlocked : e.locked = false) (hslot : e.slotTaken = false) {extents : List (Extent α)}
    (hextents : extents.length = e.commands.length) (hsize : extents.length < UInt64.size)
    {d : Nat} (hd : d < extents.length) (y : α) :
    ∃ answer, nearestIndex r extents y (some d) = some answer ∧ DropComposes e d answer := by
  have hlen : e.commands.length = Script.count .standard e.content := by
    rw [commands, he.language_eq, Script.length_parse Language.commentApart_standard]
  obtain ⟨answer, hanswer⟩ : ∃ answer, nearestIndex r extents y (some d) = some answer :=
    ⟨_, nearestIndex_some_of_lt r y hd hsize⟩
  have hplace : ∀ b, answer = some b → b ≤ extents.length ∧ b ≠ d ∧ b ≠ d + 1 := by
    rintro b rfl
    exact mem_nearestIndex r y hd hsize hanswer
  refine ⟨answer, hanswer, ?_, ?_, ?_, ?_⟩
  · rw [← hextents, ← nearestIndex_eq_none_iff r y hd hsize, hanswer, Option.some.injEq]
  · rw [← hextents]
    exact hplace
  · intro b hb c hc hread
    obtain ⟨hle, hfront, hback⟩ := hplace b hb
    rw [hextents, hlen] at hle hsize
    rw [hlen] at hread
    rw [commands, he.language_eq] at hc
    obtain ⟨script', hchange, hnormal, hcontents⟩ :=
      Script.exists_contents_drop hc hsize hle hfront hback hread he.normal
    have hdrop : e.dropBlock d b = (e.commit script', .ok true) := by
      have hedit := edit_eq e (.dropBlock d b)
      rw [hlocked, hslot, he.language_eq, hchange] at hedit
      exact hedit
    have hcommit := updatedOnce_commit e script'
    have hcommands : (e.commit script').commands = Script.parse .standard script' := by
      rw [commands, hcommit.content_eq, hcommit.language_eq, he.language_eq,
        LineEnding.normalize_of_not_mem hnormal]
    refine ⟨by rw [hdrop], ?_⟩
    rw [hdrop, hcommands, commands, he.language_eq]
    exact hcontents
  · intro b hb
    obtain ⟨-, hfront, hback⟩ := hplace b hb
    exact landing_ne hfront hback

/-- The first of three blocks, dropped behind the last one: its line is written anew there. -/
theorem dropComposes_nearestIndex_behind :
    let r : Ruler Nat := ⟨fun a b => (a + b) / 2, fun a b => (a - b) + (b - a), fun a b => a < b⟩
    let extents : List (Extent Nat) := [⟨0, 10⟩, ⟨20, 30⟩, ⟨40, 50⟩]
    let text := "步骤:\n\t等待  [ 1 ]\n# c\n返回\n点击 [\x7ba\x7d]".toList
    let e := ofBuffer .standard (Buffer.create .standard "a.tks".toList text)
    nearestIndex r extents 60 (some 0) = some (some 3) ∧ DropComposes e 0 (some 3) ∧
      (e.dropBlock 0 3).2 = .ok true ∧ (e.dropBlock 0 3).1.commands.map Command.content =
        [(.back, []), (.click, [.ofText "\x7ba\x7d".toList]), (.wait, [.ofText "1".toList])] := by
  intro r extents text e
  have he : e.Opened .standard := ⟨_, _, _, [], rfl⟩
  have hcontent : e.content = text := (redrawn_render _).content_eq
  have hcommands : e.commands = Script.parse .standard text := by
    rw [commands, hcontent, he.language_eq]
  have hlen : extents.length = e.commands.length := by
    rw [hcommands]
    rfl
  have hanswer : nearestIndex r extents 60 (some 0) = some (some 3) := rfl
  obtain ⟨answer, hanswer', hdrop⟩ := dropComposes_nearestIndex r he (redrawn_render _).locked_eq
    (redrawn_render _).slotTaken_eq hlen (by decide) (d := 0) (by decide) 60
  obtain rfl : some 3 = answer := Option.some.inj (hanswer.symm.trans hanswer')
  have hfirst : e.commands[0]? = some ⟨2, .wait, [.ofText "1".toList]⟩ := by
    rw [hcommands]
    rfl
  obtain ⟨hok, hcontents⟩ := hdrop.dropped 3 rfl _ hfirst (Or.inr (by decide))
  refine ⟨hanswer, hdrop, hok, ?_⟩
  rw [hcontents, hcommands]
  rfl

end Editor

end StepScript
