import StepScript.Proofs.Splices

/-!
# The header through edits

The header is read from the lines in front of the first marker, and there a blank line says nothing.
An edit of a script with a marker is a splice behind the marker, so that the header is read from the
same lines. A script without a marker is header as a whole and has no commands: the only edit there
is for it is a command at the end, and in front of that the marker is pushed, which closes the header
where it ended.

Main statements:

* `Script.header_eq_of_headerLines_append` — blank lines at the end of the header say nothing;
* `Script.headerKept` — the header is the same after every edit.
-/

set_option autoImplicit false

namespace StepScript

open Text

namespace Script

variable {script script' : List Char}

/-! ## Lines of the header -/

/-- Lines in front of a marker are the lines of the header. -/
theorem headerLines_eq {front rest : List (List Char)} {marker : List Char}
    (hlines : splitLines script = front ++ marker :: rest)
    (hfront : anyMarker .standard front = false)
    (hmarker : Language.standard.isMarker (trim marker) = true) :
    Header.lines .standard script = front := by
  have hall : ∀ line ∈ front, (!Language.standard.isMarker (trim line)) = true := by
    intro line hline
    simpa using List.any_eq_false.1 hfront line hline
  rw [Header.lines, hlines, List.takeWhile_append_of_pos hall,
    List.takeWhile_cons_of_neg (by simp [hmarker]), List.append_nil]

/-- The header hangs on its lines alone, and blank lines at their end say nothing. -/
theorem header_eq_of_headerLines_append {tail : List (List Char)} (htail : tail = [] ∨ tail = [[]])
    (h : Header.lines .standard script = Header.lines .standard script' ++ tail) :
    header .standard script = header .standard script' := by
  have hblank : ∀ r : Header.Reading,
      tail.foldl (fun r line => r.next .standard (trim line)) r = r := by
    intro r
    rcases htail with rfl | rfl <;> rfl
  simp only [header]
  rw [h, List.foldl_append, hblank]

/-! ## Scripts with a marker -/

/-- A splice behind the marker keeps the header. -/
theorem header_eq_of_splices (hmarker : hasMarker .standard script = true) {x : EditorEdit}
    {p : Splice} (h : x.Splices script p) :
    header .standard (p.onText script) = header .standard script := by
  obtain ⟨front, marker, rest, hfirst⟩ := exists_firstMarker hmarker
  obtain ⟨rest', hlines'⟩ :=
    Splice.exists_splitLines_onText hfirst.lines_eq_append (by simp) (h.behind hfirst)
  rw [List.append_assoc, List.singleton_append] at hlines'
  have hfront : anyMarker .standard front = false := by
    rw [hfirst.front_eq]
    exact anyMarker_headerLines script
  refine header_eq_of_headerLines_append (Or.inl rfl) ?_
  rw [headerLines_eq hlines' hfront hfirst.marker, hfirst.front_eq, List.append_nil]

/-! ## Scripts without a marker -/

/-- A script without a marker is header as a whole. -/
theorem headerLines_of_hasMarker_eq_false (h : hasMarker .standard script = false) :
    Header.lines .standard script = splitLines script := by
  refine List.takeWhile_eq_self_iff.2 fun line hline => ?_
  simpa using List.any_eq_false.1 h line hline

/-- The marker that is pushed for the first command closes the header where it ended. -/
theorem header_withMarker (script : List Char) :
    header .standard (withMarker .standard script) = header .standard script := by
  cases hmarker : hasMarker .standard script with
  | true => rw [withMarker, if_pos hmarker]
  | false =>
      have hsteps : Language.standard.isMarker (trim Language.standard.marker) = true := by decide
      have hline : '\n' ∉ Language.standard.marker := by decide
      rw [withMarker, if_neg (by simp [hmarker])]
      by_cases hs : script = []
      · rw [hs]
        decide
      · obtain ⟨body, tail, hlines, htail, hpush⟩ := exists_splitLines_pushLine hs hline
        have hbody : anyMarker .standard body = false := by
          rw [hasMarker_eq, hlines, anyMarker_append] at hmarker
          exact (Bool.or_eq_false_iff.1 hmarker).1
        refine (header_eq_of_headerLines_append htail ?_).symm
        rw [headerLines_of_hasMarker_eq_false hmarker, hlines, headerLines_eq hpush hbody hsteps]

theorem hasMarker_withMarker (script : List Char) :
    hasMarker .standard (withMarker .standard script) = true :=
  (exists_withMarker script (by decide) (by decide)).1

/-- A command goes to the end of a script as it goes to the end of the script with a marker. -/
theorem append_withMarker (script : List Char) (c : Command) :
    append .standard (withMarker .standard script) c = append .standard script c := by
  have hcommands : commandLines .standard (withMarker .standard script) =
      commandLines .standard script := (exists_withMarker script (by decide) (by decide)).2
  rw [append_eq, append_eq, hcommands, withMarker, if_pos (hasMarker_withMarker script)]

/-! ## Every edit -/

theorem header_append (script : List Char) (c : Command) :
    header .standard (append .standard script c) = header .standard script := by
  have hmarker := hasMarker_withMarker script
  obtain ⟨p, hp, htext⟩ := EditorEdit.exists_splices hmarker (x := .append c) rfl rfl
  rw [← append_withMarker, ← htext, header_eq_of_splices hmarker hp, header_withMarker]

/-- In a script without a marker, nothing but a command at the end can be asked for. -/
theorem eq_append_of_change (hmarker : hasMarker .standard script = false) {x : EditorEdit}
    (hx : x.isBlockEdit = true) {text : List Char}
    (h : x.change .standard script = .ok (some text)) : ∃ c, text = append .standard script c := by
  have hcount : count .standard script = 0 := by
    rw [count, commandLines_eq, commandsAmong_of_anyMarker_eq_false .standard 0 hmarker]
    rfl
  have hno : ∀ index, commandLine .standard script index = .error (.indexOutOfRange index 0) :=
    fun index => by rw [commandLine_of_le (by omega), hcount]
  cases x with
  | setText t => cases hx
  | append c => exact ⟨c, (Option.some.inj (Except.ok.inj h)).symm⟩
  | insert c index =>
      have hinsert := EditorEdit.eq_ok_of_map_some h
      rw [insert, hno] at hinsert
      split at hinsert
      · exact ⟨c, (Except.ok.inj hinsert).symm⟩
      · cases hinsert
  | remove index =>
      have hremove := EditorEdit.eq_ok_of_map_some h
      rw [remove, hno] at hremove
      cases hremove
  | reorder start target =>
      rw [EditorEdit.change, reorder_eq_none (by omega)] at h
      cases h
  | dropBlock start boundary =>
      have hdrop := Editor.reorder_or_moveLast_of_dropChange h
      omega
  | updateParam index name value =>
      have hupdate := EditorEdit.eq_ok_of_map_some h
      rw [updateParam, hno] at hupdate
      cases hupdate

/-- No edit of the commands touches the header. -/
theorem header_eq_of_change {x : EditorEdit} (hx : x.isBlockEdit = true) {text : List Char}
    (h : x.change .standard script = .ok (some text)) :
    header .standard text = header .standard script := by
  cases hmarker : hasMarker .standard script with
  | true =>
      obtain ⟨p, hp, rfl⟩ := EditorEdit.exists_splices hmarker hx h
      exact header_eq_of_splices hmarker hp
  | false =>
      obtain ⟨c, rfl⟩ := eq_append_of_change hmarker hx h
      exact header_append script c

/-- What is promised of the header of a script through edits, with any commands, indices, names and
values. -/
structure HeaderKept (script : List Char) : Prop where
  append : ∀ c, header .standard (append .standard script c) = header .standard script
  insert : ∀ c index script', insert .standard script c index = .ok script' →
    header .standard script' = header .standard script
  remove : ∀ index script', remove .standard script index = .ok script' →
    header .standard script' = header .standard script
  reorder : ∀ start target script', reorder .standard script start target = some script' →
    header .standard script' = header .standard script
  updateParam : ∀ index name value script',
    updateParam .standard script index name value = .ok script' →
      header .standard script' = header .standard script

/-- **Edits of the commands leave the header alone**, whether or not there is a marker before. -/
theorem headerKept (script : List Char) : HeaderKept script where
  append c := header_append script c
  insert c index script' h := header_eq_of_change (x := .insert c index) rfl (by
    rw [EditorEdit.change, h]
    rfl)
  remove index script' h := header_eq_of_change (x := .remove index) rfl (by
    rw [EditorEdit.change, h]
    rfl)
  reorder start target script' h := header_eq_of_change (x := .reorder start target) rfl (by
    rw [EditorEdit.change, h])
  updateParam index name value script' h :=
    header_eq_of_change (x := .updateParam index name value) rfl (by
      rw [EditorEdit.change, h]
      rfl)

/-- A command whose parameter holds a label and a marker on lines of their own, put into a script that
is header as a whole. -/
example :
    let script := "用例: 登录\n详情：\nurl: http\n\n".toList
    let c : Command := ⟨0, .input, [.ofText "a\n用例: b\n步骤:".toList]⟩
    header .standard (append .standard script c) =
      ⟨some "登录".toList, none, [("url".toList, "http".toList)]⟩ := by
  decide

end Script

end StepScript
