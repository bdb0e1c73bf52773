import StepScript.Proofs.ReadBack

/-!
# The pieces of a parameter list

A parameter list is cut at its commas outside braces, where a brace that closes nothing is ignored
and the last piece may leave braces open. The pieces are determined by this: joined by commas they
make up the list, and a comma of the list is a joint of two pieces exactly if no brace is open in
front of it. The parameters are the pieces that are not blank, without the blanks at their ends.

None of the pieces in front of a joint leaves a brace open, and blanks open and close none; so a
list that is written with the parameters alone is cut between them and nowhere else.

Main statements:

* `Parameter.cutAtCommas_iff` — the pieces of a text;
* `Parameter.stableList` — what a list is cut into, and what it is cut into when written anew.
-/

set_option autoImplicit false

namespace StepScript.Parameter

open Text

/-! ## Joints -/

/-- The texts `pieces`, joined by commas, have a **joint** behind `front`. -/
def IsJoint (pieces : List (List Char)) (front : List Char) : Prop :=
  ∃ left right, left ≠ [] ∧ right ≠ [] ∧ pieces = left ++ right ∧ front = [','].intercalate left

/-- The texts `pieces` are what stands between the commas of a text `s` that are outside braces,
where `depth` braces are open in front of the text. -/
structure CutAtCommas (depth : Nat) (s : List Char) (pieces : List (List Char)) : Prop where
  nonempty : pieces ≠ []
  /-- The pieces make up the text. -/
  joined : [','].intercalate pieces = s
  /-- A comma is a joint exactly if no brace is open in front of it. -/
  joint_iff : ∀ front back, s = front ++ ',' :: back →
    (IsJoint pieces front ↔ braceDepth depth front = 0)

variable {depth : Nat} {s : List Char} {pieces : List (List Char)}

theorem intercalate_cons (piece : List Char) (hne : pieces ≠ []) :
    [','].intercalate (piece :: pieces) = piece ++ ',' :: [','].intercalate pieces := by
  obtain ⟨next, rest, rfl⟩ := List.exists_cons_of_ne_nil hne
  rw [List.intercalate_cons_cons, List.append_assoc, List.singleton_append]

theorem not_isJoint_singleton (piece front : List Char) : ¬ IsJoint [piece] front := by
  rintro ⟨left, right, hleft, hright, heq, -⟩
  have hlen := congrArg List.length heq
  rw [List.length_append, List.length_singleton] at hlen
  have hl := List.length_pos_iff.2 hleft
  have hr := List.length_pos_iff.2 hright
  omega

/-- The first joint stands behind the first piece, and the others are those of the rest. -/
theorem isJoint_cons_iff (piece front : List Char) (hne : pieces ≠ []) :
    IsJoint (piece :: pieces) front ↔
      front = piece ∨ ∃ rest, front = piece ++ ',' :: rest ∧ IsJoint pieces rest := by
  constructor
  · rintro ⟨left, right, hleft, hright, heq, rfl⟩
    obtain ⟨first, left, rfl⟩ := List.exists_cons_of_ne_nil hleft
    obtain ⟨rfl, rfl⟩ := List.cons.inj heq
    cases left with
    | nil => exact Or.inl List.intercalate_singleton
    | cons next left =>
        have hcons := List.cons_ne_nil next left
        exact Or.inr ⟨_, intercalate_cons piece hcons, _, right, hcons, hright, rfl, rfl⟩
  · rintro (rfl | ⟨_, rfl, left, right, hleft, hright, rfl, rfl⟩)
    · exact ⟨[front], pieces, by simp, hne, rfl, List.intercalate_singleton.symm⟩
    · exact ⟨piece :: left, right, by simp, hright, rfl, (intercalate_cons piece hleft).symm⟩

/-- No joint stands within the first piece. -/
theorem prefix_of_isJoint {piece front : List Char} (h : IsJoint (piece :: pieces) front) :
    piece <+: front := by
  have hne : pieces ≠ [] := by
    rintro rfl
    exact not_isJoint_singleton piece front h
  rcases (isJoint_cons_iff piece front hne).1 h with rfl | ⟨rest, rfl, -⟩
  · exact List.prefix_rfl
  · exact List.prefix_append piece _

/-! ## The pieces are determined -/

/-- A text is not cut exactly if in front of each of its commas a brace is open. -/
theorem cuts_eq_zero_iff :
    cuts depth s = 0 ↔ ∀ front back, s = front ++ ',' :: back → braceDepth depth front ≠ 0 := by
  constructor
  · rintro h front back rfl hdepth
    rw [cuts_append, cuts, if_pos ⟨rfl, hdepth⟩] at h
    omega
  · intro h
    induction s generalizing depth with
    | nil => rfl
    | cons c s ih =>
        have hcut : ¬ (c = ',' ∧ depth = 0) := by
          rintro ⟨rfl, rfl⟩
          exact h [] s rfl rfl
        have hrest := ih fun front back hs => h (c :: front) back (congrArg (c :: ·) hs)
        rw [cuts, if_neg hcut, hrest]

namespace CutInto

/-- Cutting a text from the front gives the pieces between its commas outside braces. -/
theorem cutAtCommas (h : CutInto depth s pieces) : CutAtCommas depth s pieces := by
  induction h with
  | @whole depth s huncut =>
      refine ⟨by simp, List.intercalate_singleton, fun front back hs => ?_⟩
      exact iff_of_false (not_isJoint_singleton s front) (cuts_eq_zero_iff.1 huncut front back hs)
  | @cut depth s t pieces huncut hdepth _ ih =>
      refine ⟨by simp, by rw [intercalate_cons s ih.nonempty, ih.joined], fun front back hs => ?_⟩
      rw [isJoint_cons_iff s front ih.nonempty]
      -- the comma is the first one, or stands within the first piece or behind it
      rcases List.append_eq_append_iff.1 hs with ⟨u, rfl, hu⟩ | ⟨u, rfl, hu⟩
      · cases u with
        | nil => simp [hdepth]
        | cons c u =>
            obtain ⟨rfl, rfl⟩ := List.cons.inj hu
            have hjoint := ih.joint_iff u back rfl
            have hcomma : braceDepth depth (s ++ ',' :: u) = braceDepth 0 u := by
              rw [braceDepth_append, hdepth]
              rfl
            rw [hcomma, ← hjoint]
            simp
      · cases u with
        | nil => simpa using hdepth
        | cons c u =>
            obtain ⟨rfl, rfl⟩ := List.cons.inj hu
            refine iff_of_false ?_ (cuts_eq_zero_iff.1 huncut front u rfl)
            simp

/-- A text is cut in one way. -/
theorem eq_segmentsFrom (h : CutInto depth s pieces) : pieces = segmentsFrom depth s := by
  induction h with
  | whole huncut => rw [segmentsFrom_of_cuts_eq_zero huncut]
  | cut huncut hdepth _ ih => rw [segmentsFrom_append_cut _ huncut hdepth, ih]

end CutInto

/-- The pieces between the commas outside braces are those that are cut from the front. -/
theorem CutAtCommas.cutInto (h : CutAtCommas depth s pieces) : CutInto depth s pieces := by
  induction pieces generalizing depth s with
  | nil => exact absurd rfl h.nonempty
  | cons piece pieces ih =>
      obtain ⟨-, rfl, hjoint⟩ := h
      cases pieces with
      | nil =>
          rw [List.intercalate_singleton] at hjoint ⊢
          exact .whole (cuts_eq_zero_iff.2 fun front back hs hdepth =>
            not_isJoint_singleton piece front ((hjoint front back hs).2 hdepth))
      | cons next rest =>
          have hne := List.cons_ne_nil next rest
          rw [intercalate_cons piece hne] at hjoint ⊢
          have hdepth : braceDepth depth piece = 0 :=
            (hjoint piece _ rfl).1 ((isJoint_cons_iff piece piece hne).2 (Or.inl rfl))
          refine .cut (cuts_eq_zero_iff.2 fun front back hs hzero => ?_) hdepth
            (ih ⟨hne, rfl, fun front back hs => ?_⟩)
          · -- a joint within the piece would be shorter than the piece
            have hfront : IsJoint (piece :: next :: rest) front :=
              (hjoint front _ (by rw [hs, List.append_assoc, List.cons_append])).2 hzero
            have hle := (prefix_of_isJoint hfront).length_le
            have hlen := congrArg List.length hs
            rw [List.length_append, List.length_cons] at hlen
            omega
          · have hlater := hjoint (piece ++ ',' :: front) back
              (by rw [hs, List.append_assoc, List.cons_append])
            have hcomma : braceDepth depth (piece ++ ',' :: front) = braceDepth 0 front := by
              rw [braceDepth_append, hdepth]
              rfl
            rw [← hcomma, ← hlater, isJoint_cons_iff piece _ hne]
            simp

/-- **The pieces of a text** are what stands between its commas outside braces. -/
theorem cutAtCommas_iff : CutAtCommas depth s pieces ↔ pieces = segmentsFrom depth s := by
  constructor
  · exact fun h => h.cutInto.eq_segmentsFrom
  · rintro rfl
    exact (cutInto_segmentsFrom depth s).cutAtCommas

/-! ## Stable lists -/

theorem joinRaws_eq_intercalate (params : List Parameter) :
    Command.joinRaws params = [',', ' '].intercalate (params.map raw) := by
  induction params with
  | nil => rfl
  | cons p params ih =>
      cases params with
      | nil => simp [Command.joinRaws]
      | cons q params =>
          rw [joinRaws_cons_cons, ih]
          simp only [List.map_cons, List.intercalate_cons_cons, List.append_assoc]
          rfl

/-- What is promised of the parameters of a list. -/
structure StableList (inner : List Char) : Prop where
  /-- No raw text is empty, or has blanks at its ends. -/
  trimmed : ∀ p ∈ ofList inner, trim p.raw = p.raw ∧ p.raw ≠ []
  /-- The parameters are read from the pieces that are not blank, each once and in order, and the
  pieces are those between the commas outside braces. -/
  kept : ∃ pieces, (∀ pieces', CutAtCommas 0 inner pieces' ↔ pieces' = pieces) ∧
    ofList inner = (pieces.filter fun piece => !allBlank piece).map ofText
  /-- The raw texts, with a comma and a space between them, are a list of the same parameters. -/
  stable : ofList ([',', ' '].intercalate ((ofList inner).map raw)) = ofList inner

/-- **A list and its normal form have the same parameters**, whatever its braces are. -/
theorem stableList (inner : List Char) : StableList inner where
  trimmed p hp :=
    have hlisted := listed_of_mem_ofList hp
    ⟨hlisted.trim_raw, hlisted.nonempty⟩
  kept := ⟨segments inner, fun _ => cutAtCommas_iff, rfl⟩
  stable := by
    rw [← joinRaws_eq_intercalate, ofList_joinRaws_ofList]

/-- A brace that closes nothing, a blank piece, and braces that are left open at the end. -/
example : (ofList " a\x7d ,\t, \x7bb, c , d\x7d\x7d,e , \x7b, f".toList).map raw =
    ["a\x7d".toList, "\x7bb, c , d\x7d\x7d".toList, "e".toList, "\x7b, f".toList] := by
  decide

end StepScript.Parameter
