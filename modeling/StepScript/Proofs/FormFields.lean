import StepScript.Proofs.ExactEdit
import StepScript.Proofs.ReadBack
import StepScript.Proofs.Views

/-!
# What a form takes back

A form shows what the script says for each parameter of the table, as it was cut out of a list. The
same text is not always taken back: lists are cut leniently, and a text with a brace that matches no
other one, or with a closing bracket, is refused as a value. A value that is taken back leaves all
commands as they are, provided that the line of the command is read as before when it is written
anew.

Main statements:

* `Block.getElem?_fieldsOf` — which parameter a field shows;
* `Command.withParam_self` — a command that is given one of its own parameters;
* `Script.takesBack_of_field` — what becomes of a value that a form shows.
-/

set_option autoImplicit false

namespace StepScript

open Text

/-! ## Names and fields -/

/-- No keyword has two parameters of one name. -/
theorem Keyword.pairwise_names (k : Keyword) : k.params.Pairwise fun d d' => d.name ≠ d'.name := by
  cases k <;> decide

/-- A definition is found under its name. -/
theorem Keyword.paramIndex?_name {k : Keyword} {j : Nat} {d : ParamDef}
    (h : k.params[j]? = some d) : k.paramIndex? d.name = some j := by
  obtain ⟨hlt, rfl⟩ := List.getElem?_eq_some_iff.1 h
  rw [paramIndex?, List.findIdx?_eq_some_iff_getElem]
  refine ⟨hlt, beq_self_eq_true _, fun i hi => ?_⟩
  simpa using List.pairwise_iff_getElem.1 k.pairwise_names i j (hi.trans hlt) hlt hi

/-- A field of the table shows the parameter at its place, if there is one. -/
theorem Block.getElem?_fieldsOf {defs : List ParamDef} {params : List Parameter} {j : Nat}
    {d : ParamDef} (h : defs[j]? = some d) :
    (fieldsOf defs params)[j]? = some ⟨d, params[j]?.map Parameter.raw⟩ := by
  induction defs generalizing params j with
  | nil => simp at h
  | cons d' defs ih =>
      cases params with
      | nil =>
          cases j with
          | zero =>
              obtain rfl : d' = d := Option.some.inj h
              rfl
          | succ j =>
              have hrest : (fieldsOf defs [])[j]? = some ⟨d, none⟩ := ih h
              rw [fieldsOf, List.getElem?_cons_succ, hrest]
              rfl
      | cons p params =>
          cases j with
          | zero =>
              obtain rfl : d' = d := Option.some.inj h
              rfl
          | succ j => rw [fieldsOf, List.getElem?_cons_succ, List.getElem?_cons_succ, ih h]

/-! ## One of its own parameters -/

namespace Command

/-- A parameter of a list fits as a value if its braces match and it holds no closing bracket. -/
theorem fitsItem_iff {p : Parameter} (h : p.Listed) :
    FitsItem p.raw ↔ BracesMatch p.raw ∧ ']' ∉ p.raw :=
  ⟨fun ⟨hbraces, hbracket, _⟩ => ⟨hbraces, hbracket⟩,
    fun ⟨hbraces, hbracket⟩ => ⟨hbraces, hbracket, hbraces.commasInBraces h.uncut⟩⟩

variable {c : Command} {j : Nat} {d : ParamDef} {p : Parameter}

/-- A parameter that is put where it stands. -/
theorem placeParam_self (h : c.params[j]? = some p) : c.placeParam j [] p = c := by
  obtain ⟨hlt, rfl⟩ := List.getElem?_eq_some_iff.1 h
  rw [placeParam, List.append_nil, if_pos hlt, List.set_getElem_self]

/-- A command that is given one of its own parameters stays as it is, or the value is refused. -/
theorem withParam_self (hd : c.keyword.params[j]? = some d) (hp : c.params[j]? = some p)
    (hlisted : p.Listed) :
    (FitsItem p.raw ∧ c.withParam d.name p.raw = .ok c) ∨
      ¬ FitsItem p.raw ∧ c.withParam d.name p.raw = .error (.invalidParamValue d.name p.raw) := by
  have hlt : j < c.params.length := (List.getElem?_eq_some_iff.1 hp).1
  have hedited := edited_withParam (Keyword.paramIndex?_name hd) hd p.raw
  rw [hlisted.trim_raw] at hedited
  generalize c.withParam d.name p.raw = answer at hedited ⊢
  cases hedited with
  | notLast hblank => exact absurd hblank hlisted.nonempty
  | removed hblank => exact absurd hblank hlisted.nonempty
  | unfit _ hfits => exact Or.inr ⟨hfits, rfl⟩
  | missing _ _ hfirst =>
      have hle := hfirst.start_le
      have hstop := hfirst.lt_stop
      omega
  | placed _ hfits hgap =>
      -- nothing is missing in front of the parameter
      rw [List.drop_eq_nil_of_le (by rw [List.length_take]; omega)] at hgap
      obtain rfl := Except.ok.inj hgap
      rw [hlisted.parsed, placeParam_self hp]
      exact Or.inl ⟨hfits, rfl⟩

end Command

namespace Script

variable {script value : List Char} {i : Nat}

/-! ## Commands that are written anew -/

/-- A command that is written anew in its place leaves all commands as they are, if it is read back
from its canonical line. -/
theorem Placed.parse_rewritten {rank : Nat} {l : CommandLine} {front back : List (List Char)}
    (h : Placed .standard script rank l front back) (hc : (readLine .standard l).Rereadable) :
    parse .standard (joinLines (front ++
      (indentation l.text ++ (readLine .standard l).toLine) :: back)) = parse .standard script := by
  have hblank := allBlank_indentation l.text
  have htoLine : '\n' ∉ (readLine .standard l).toLine :=
    not_mem_toLine_readLine (Keyword.newline_not_mem_spelling l.keyword) (by decide)
      h.newline_not_mem_text
  have hnewline : '\n' ∉ indentation l.text ++ (readLine .standard l).toLine := by
    simp [h.newline_not_mem_indentation, htoLine]
  have hlisted : ∀ p ∈ (readLine .standard l).params, p.Listed := fun _ => listed_of_mem_lineParams
  exact h.parse_set (Command.isCommandText_toLine hblank (readLine .standard l)) hnewline
    ((Command.lineParams_toLine_iff hblank hlisted).2 hc)

/-- A block of a view that was just drawn shows a command line. -/
theorem exists_placed_of_block {v : BlockView} {b : Block}
    (hb : (v.render .standard script).blocks[i]? = some b) :
    ∃ l front back, Placed .standard script i l front back ∧ b.command = readLine .standard l := by
  have hcommand := congrArg (fun blocks => blocks[i]?)
    (BlockView.map_command_blocks_render .standard script v)
  rw [List.getElem?_map, hb, Option.map_some, parse_eq_map Language.commentApart_standard,
    List.getElem?_map] at hcommand
  obtain ⟨l, hl, hread⟩ := Option.map_eq_some_iff.1 hcommand.symm
  obtain ⟨front, back, hp⟩ := exists_placed .standard hl
  exact ⟨l, front, back, hp, hread.symm⟩

/-! ## Values that are shown -/

/-- What is promised of an update that gives the command with the index `i` back the `value` that its
form shows for the parameter called `name`. -/
structure TakesBack (script : List Char) (i : Nat) (name value : List Char) : Prop where
  /-- The value is accepted exactly if its braces match and it holds no closing bracket. -/
  accepted_iff : (∃ script', updateParam .standard script i name value = .ok script') ↔
    BracesMatch value ∧ ']' ∉ value
  /-- Otherwise the error names the field and the value. -/
  refused : ¬ (BracesMatch value ∧ ']' ∉ value) →
    updateParam .standard script i name value = .error (.invalidParamValue name value)
  /-- An accepted value changes no command, if the list of the line, taken on its own, holds no
  comment. -/
  unchanged : ∀ script', updateParam .standard script i name value = .ok script' →
    ∀ l ∈ (commandLines .standard script)[i]?, ListUncommented l.text →
      parse .standard script' = parse .standard script

/-- **What becomes of a value that a form shows**, when it is given back to the field. -/
theorem takesBack_of_field {v : BlockView} {b : Block} {f : BlockField} {j : Nat}
    (hb : (v.render .standard script).blocks[i]? = some b)
    (hj : j < b.command.keyword.params.length) (hf : b.fields[j]? = some f)
    (hvalue : f.value = some value) : TakesBack script i f.definition.name value := by
  obtain ⟨l, front, back, hplaced, hcommand⟩ := exists_placed_of_block hb
  obtain ⟨index, c⟩ := b
  obtain rfl : c = readLine .standard l := hcommand
  obtain ⟨d, hd⟩ : ∃ d, (readLine .standard l).keyword.params[j]? = some d :=
    ⟨_, List.getElem?_eq_getElem hj⟩
  obtain rfl := Option.some.inj ((Block.getElem?_fieldsOf hd).symm.trans hf)
  obtain ⟨p, hp, rfl⟩ := Option.map_eq_some_iff.1 hvalue
  have hlisted : p.Listed := listed_of_mem_lineParams (List.mem_of_getElem? hp)
  have hupdate := hplaced.updateParam_eq d.name p.raw
  obtain ⟨hfits, hself⟩ | ⟨hfits, hself⟩ := Command.withParam_self hd hp hlisted
  · rw [Command.fitsItem_iff hlisted] at hfits
    rw [hself] at hupdate
    refine ⟨iff_of_true ⟨_, hupdate⟩ hfits, fun hunfit => absurd hfits hunfit, ?_⟩
    intro script' hscript' m hm hlist
    obtain rfl : l = m := Option.some.inj (hplaced.getElem?.symm.trans hm)
    rw [← Except.ok.inj (hupdate.symm.trans hscript')]
    exact hplaced.parse_rewritten ((rereadable_iff rfl).2 hlist)
  · rw [Command.fitsItem_iff hlisted] at hfits
    rw [hself] at hupdate
    have hrefused : ¬ ∃ script', updateParam .standard script i d.name p.raw = .ok script' := by
      rintro ⟨script', hscript'⟩
      exact absurd (hupdate.symm.trans hscript') (by simp [Except.map])
    exact ⟨iff_of_false hrefused hfits, fun _ => hupdate, fun script' hscript' =>
      absurd ⟨script', hscript'⟩ hrefused⟩

/-- The second value of a list with blank pieces, in front of a comment. -/
theorem takesBack_of_field_lenient :
    let script := "步骤:\n 输入 x [ \x7b#a\x7d ,, b ] # c\n返回".toList
    let b : Block := ⟨0, ⟨2, .input, [.ofText "\x7b#a\x7d".toList, .ofText "b".toList]⟩⟩
    let f : BlockField := ⟨⟨"文本".toList, .text, true, none⟩, some "b".toList⟩
    (BlockView.empty.render .standard script).blocks[0]? = some b ∧
      1 < b.command.keyword.params.length ∧ b.fields[1]? = some f ∧ f.value = some "b".toList ∧
      TakesBack script 0 f.definition.name "b".toList ∧
      updateParam .standard script 0 f.definition.name "b".toList =
        .ok "步骤:\n 输入 [\x7b#a\x7d, b]\n返回".toList := by
  intro script b f
  have hb : (BlockView.empty.render .standard script).blocks[0]? = some b := by decide
  have hf : b.fields[1]? = some f := by decide
  exact ⟨hb, by decide, hf, rfl, takesBack_of_field hb (by decide) hf rfl, by decide⟩

/-- A form shows a brace that nothing closes, and does not take it back. -/
theorem not_exists_updateParam_open_brace :
    let script := "步骤:\n点击 [\x7ba]".toList
    let b : Block := ⟨0, ⟨2, .click, [.ofText "\x7ba".toList]⟩⟩
    let f : BlockField := ⟨⟨"元素".toList, .locator, true, none⟩, some "\x7ba".toList⟩
    (BlockView.empty.render .standard script).blocks[0]? = some b ∧
      0 < b.command.keyword.params.length ∧ b.fields[0]? = some f ∧ f.value = some "\x7ba".toList ∧
      ¬ ∃ script', updateParam .standard script 0 f.definition.name "\x7ba".toList = .ok script' := by
  intro script b f
  refine ⟨by decide, by decide, by decide, rfl, fun ⟨script', h⟩ => ?_⟩
  have hrefused : updateParam .standard script 0 f.definition.name "\x7ba".toList =
      .error (.invalidParamValue f.definition.name "\x7ba".toList) := by decide
  rw [hrefused] at h
  cases h

end Script

end StepScript
