import StepScript.Proofs.EditorActions

/-!
# Styles and the text they are for

A highlighter reads the script of an editor and writes its styles into a layer of the text view, also
while that view is not the active one and shows an older text. The styles are gone when the text view
is drawn, and the script changes in no other way; so what a layer holds while the text view is active
was found for the script that is shown.

Main statements:

* `Interval.stablySorted_sort` — the styles of a layer are in order;
* `Layers.get?_editAll_of_spares` — changes that write nothing to a layer leave it alone or take it
  away;
* `Editor.styles_act` — an action keeps the styles and the script, or draws;
* `Editor.currentStyles_of_highlighted` — styles never outlive their text.
-/

set_option autoImplicit false

namespace StepScript

/-! ## Sorted intervals -/

namespace Interval

def hasEnds (start stop : Nat) (i : Interval) : Bool :=
  i.start == start && i.stop == stop

/-- The intervals `ys` are the intervals `xs`, by start and then by stop; those with the same ends
stand as they did. -/
structure StablySorted (xs ys : List Interval) : Prop where
  perm : ys.Perm xs
  ordered : ys.Pairwise fun a b => a.start < b.start ∨ a.start = b.start ∧ a.stop ≤ b.stop
  stable : ∀ start stop, ys.filter (hasEnds start stop) = xs.filter (hasEnds start stop)

theorem precedes_iff {a b : Interval} :
    a.precedes b = true ↔ a.start < b.start ∨ a.start = b.start ∧ a.stop ≤ b.stop := by
  simp [precedes]

theorem precedes_trans (a b c : Interval) (hab : a.precedes b = true) (hbc : b.precedes c = true) :
    a.precedes c = true := by
  rw [precedes_iff] at hab hbc ⊢
  omega

theorem precedes_total (a b : Interval) : (a.precedes b || b.precedes a) = true := by
  rw [Bool.or_eq_true, precedes_iff, precedes_iff]
  omega

/-- Intervals with the same ends stand in any order. -/
theorem pairwise_filter_hasEnds (start stop : Nat) (xs : List Interval) :
    (xs.filter (hasEnds start stop)).Pairwise fun a b => a.precedes b = true := by
  refine List.pairwise_of_forall_mem_list fun a ha b hb => ?_
  have hends : ∀ i ∈ xs.filter (hasEnds start stop), i.start = start ∧ i.stop = stop := by
    intro i hi
    simpa [hasEnds] using (List.mem_filter.1 hi).2
  obtain ⟨hastart, hastop⟩ := hends a ha
  obtain ⟨hbstart, hbstop⟩ := hends b hb
  rw [precedes_iff]
  omega

theorem stablySorted_sort (xs : List Interval) : StablySorted xs (sort xs) where
  perm := List.mergeSort_perm xs precedes
  ordered :=
    (List.pairwise_mergeSort precedes_trans precedes_total xs).imp fun h => precedes_iff.1 h
  stable := by
    intro start stop
    -- sorting keeps a run of intervals that is in order already, and finds no other ones
    have hsublist : (xs.filter (hasEnds start stop)).Sublist (sort xs) :=
      List.sublist_mergeSort precedes_trans precedes_total (pairwise_filter_hasEnds start stop xs)
        List.filter_sublist
    have hfiltered := hsublist.filter (hasEnds start stop)
    simp only [List.filter_filter, Bool.and_self] at hfiltered
    have hlength := ((List.mergeSort_perm xs precedes).filter (hasEnds start stop)).length_eq
    exact (hfiltered.eq_of_length hlength.symm).symm

end Interval

/-! ## Changes of layers -/

namespace Layers

/-- Whether a change writes nothing to a layer. It may take the layer away. -/
def Edit.Spares (layer : Nat) : Edit → Prop
  | .replace other _ => other ≠ layer
  | .clear _ => True

theorem get?_drop_self (layer : Nat) (ls : Layers) : get? layer (drop layer ls) = none := by
  refine List.lookup_eq_none_iff.2 fun p hp => ?_
  have hne : (p.1 != layer) = true := (List.mem_filter.1 hp).2
  rwa [bne_iff_ne, ne_comm, ← bne_iff_ne] at hne

theorem get?_drop_of_ne {layer other : Nat} (ls : Layers) (h : other ≠ layer) :
    get? layer (drop other ls) = get? layer ls := by
  induction ls with
  | nil => rfl
  | cons p rest ih =>
      obtain ⟨n, xs⟩ := p
      rw [drop] at ih ⊢
      by_cases hn : n = other
      · have hlayer : (layer == n) = false := by simpa [hn] using h.symm
        rw [List.filter_cons_of_neg (by simp [hn]), ih, get?, get?, List.lookup_cons, hlayer]
      · rw [List.filter_cons_of_pos (by simp [hn]), get?, get?, List.lookup_cons, List.lookup_cons]
        cases layer == n with
        | true => rfl
        | false => exact ih

/-- A layer that is replaced holds what was written to it, in order. -/
theorem get?_edit_replace (layer : Nat) (xs : List Interval) (ls : Layers) :
    get? layer (edit ls (.replace layer xs)).1 = some (Interval.sort xs) := by
  simp only [edit]
  split
  · assumption
  · exact get?_put_self layer (Interval.sort xs) ls

/-- A change that writes nothing to a layer leaves it alone, or takes it away. -/
theorem get?_edit_of_spares {layer : Nat} {x : Edit} (hx : x.Spares layer) (ls : Layers) :
    get? layer (edit ls x).1 = none ∨ get? layer (edit ls x).1 = get? layer ls := by
  cases x with
  | replace other xs =>
      refine Or.inr ?_
      simp only [edit]
      split
      · rfl
      · exact get?_put_of_ne (Interval.sort xs) ls (Ne.symm hx)
  | clear other =>
      by_cases h : other = layer
      · exact Or.inl (by rw [h]; exact get?_drop_self layer ls)
      · exact Or.inr (get?_drop_of_ne ls h)

/-- So do some changes that write nothing to it. -/
theorem get?_editAll_of_spares {layer : Nat} {edits : List Edit}
    (hedits : ∀ x ∈ edits, x.Spares layer) (ls : Layers) :
    get? layer (editAll ls edits).1 = none ∨
      get? layer (editAll ls edits).1 = get? layer ls := by
  induction edits generalizing ls with
  | nil => exact Or.inr rfl
  | cons x edits ih =>
      rw [List.forall_mem_cons] at hedits
      have hfirst := get?_edit_of_spares hedits.1 ls
      rcases ih hedits.2 (edit ls x).1 with hrest | hrest
      · exact Or.inl hrest
      · rcases hfirst with hfirst | hfirst
        · exact Or.inl (hrest.trans hfirst)
        · exact Or.inr (hrest.trans hfirst)

/-- A change that changed nothing leaves the layers as they are. -/
theorem edit_eq_self {ls : Layers} {x : Edit} (h : (edit ls x).2 = false) : (edit ls x).1 = ls := by
  cases x with
  | replace layer xs =>
      simp only [edit] at h ⊢
      split at h
      · next hsame => rw [if_pos hsame]
      · cases h
  | clear layer =>
      have hnone : get? layer ls = none := Option.isNone_iff_eq_none.1 (Option.isSome_eq_false_iff.1 h)
      refine List.filter_eq_self.2 fun p hp => ?_
      have hne : (layer != p.1) = true := List.lookup_eq_none_iff.1 hnone p hp
      rwa [bne_iff_ne, ne_comm, ← bne_iff_ne] at hne

theorem editAll_eq_self {ls : Layers} {edits : List Edit} (h : (editAll ls edits).2 = false) :
    (editAll ls edits).1 = ls := by
  induction edits generalizing ls with
  | nil => rfl
  | cons x edits ih =>
      obtain ⟨hfirst, hrest⟩ : (edit ls x).2 = false ∧ (editAll (edit ls x).1 edits).2 = false := by
        simpa [editAll] using h
      exact (ih hrest).trans (edit_eq_self hfirst)

end Layers

/-! ## Styles of a text view -/

namespace TextView

theorem layers_markLine (v : TextView) (m : LineMark) : (v.markLine m).1.layers = v.layers := by
  rcases v.markLine_cases m with ⟨-, hv⟩ | ⟨-, range, hv⟩ <;> rw [hv]

theorem layers_clearMark (v : TextView) : v.clearMark.layers = v.layers := by
  unfold clearMark
  split <;> rfl

/-- A view holds the changed layers, also where it is not drawn because nothing changed. -/
theorem layers_editLayers (v : TextView) (edits : List Layers.Edit) :
    (v.editLayers edits).1.layers = (Layers.editAll v.layers edits).1 := by
  unfold editLayers
  split
  next layers changed h =>
    split
    · rw [h]
    · next hchanged =>
      have hunchanged : (Layers.editAll v.layers edits).2 = false := by
        rw [h]
        simpa using hchanged
      exact (Layers.editAll_eq_self hunchanged).symm

end TextView

/-! ## Styles of an editor -/

/-- Whether an action writes no styles to a layer. It may take the layer away. -/
def EditorAction.SparesLayer (layer : Nat) : EditorAction → Prop
  | .editLayers edits => ∀ x ∈ edits, x.Spares layer
  | _ => True

namespace Editor

variable {e : Editor}

/-- Two editors with the same script in the same mode, and with the same styles. -/
structure SameStyles (e e' : Editor) : Prop where
  content_eq : e'.content = e.content
  mode_eq : e'.mode = e.mode
  layers_eq : e'.textView.layers = e.textView.layers

theorem SameStyles.refl (e : Editor) : SameStyles e e := ⟨rfl, rfl, rfl⟩

theorem layers_markActive (e : Editor) (m : LineMark) :
    (e.markActive m).1.textView.layers = e.textView.layers := by
  unfold markActive
  split
  · exact e.textView.layers_markLine m
  · rfl

/-- A text view that was just drawn has no styles. -/
theorem layers_render (h : e.mode = .text) : e.render.textView.layers = [] := by
  have hdrawn : e.drawActive.textView.layers = [] := by
    rw [drawActive, h]
    rfl
  rw [render_eq]
  split
  · exact hdrawn
  · next m _ =>
    have hmarked := (layers_markActive e.drawActive m).trans hdrawn
    split <;> exact hmarked

theorem sameStyles_highlight (e : Editor) (m : LineMark) : SameStyles e (e.highlight m).1 := by
  have hredrawn := redrawn_highlight e m
  refine ⟨hredrawn.content_eq, hredrawn.mode_eq, ?_⟩
  obtain ⟨mark, hmarked⟩ := exists_highlight_eq e m
  rw [hmarked]
  exact layers_markActive e m

/-- **What an action does to the styles.** It changes layers and nothing else, or it keeps the script,
the mode and the styles, or it draws; then the text view, if it is active, has no styles. -/
theorem styles_act (e : Editor) (a : EditorAction) :
    (∃ edits, a = .editLayers edits) ∨ SameStyles e (e.act a) ∨
      ((e.act a).mode = .text → (e.act a).textView.layers = []) := by
  have hdraw : ∀ e' : Editor, e'.render.mode = .text → e'.render.textView.layers = [] := by
    intro e' h
    rw [(redrawn_render e').mode_eq] at h
    exact layers_render h
  cases a with
  | edit x =>
      rcases edit_eq_self_or_commit e x with hx | ⟨text, hx⟩
      · refine Or.inr (Or.inl ?_)
        rw [act, hx]
        exact .refl e
      · refine Or.inr (Or.inr ?_)
        rw [act, hx]
        exact hdraw { e with buffer := e.buffer.update true text }
  | beginEdit =>
      refine Or.inr (Or.inl ?_)
      rcases act_beginEdit e with hx | hx <;> rw [hx]
      · exact .refl e
      · exact ⟨rfl, rfl, rfl⟩
  | endEdit => exact Or.inr (Or.inl ⟨rfl, rfl, rfl⟩)
  | switchMode mode => exact Or.inr (Or.inr (hdraw { e with mode }))
  | toggleMode => exact Or.inr (Or.inr (hdraw { e with mode := e.mode.toggle }))
  | setLocked locked => exact Or.inr (Or.inl ⟨rfl, rfl, rfl⟩)
  | highlight m => exact Or.inr (Or.inl (sameStyles_highlight e m))
  | clearHighlight => exact Or.inr (Or.inl ⟨rfl, rfl, e.textView.layers_clearMark⟩)
  | editLayers edits => exact Or.inl ⟨edits, rfl⟩
  | upkeep u => exact Or.inr (Or.inl ⟨e.buffer.content_upkeep u, rfl, rfl⟩)

/-! ## Highlighted editors -/

/-- An editor to which some actions lead from a new one, among them calls of a highlighter that
writes to a layer. Nobody else writes styles to that layer. -/
inductive Highlighted (h : Highlighter) (layer : Nat) : Editor → Prop
  | ofBuffer (lang : Language) (buffer : Buffer) : Highlighted h layer (.ofBuffer lang buffer)
  | act {e : Editor} (a : EditorAction) (ha : a.SparesLayer layer) (he : Highlighted h layer e) :
      Highlighted h layer (e.act a)
  | run {e : Editor} (he : Highlighted h layer e) :
      Highlighted h layer (e.runHighlighter layer h).1

variable {h : Highlighter} {layer : Nat}

/-- What a highlighter leaves in its layer are the styles of the script. -/
theorem get?_runHighlighter (e : Editor) (layer : Nat) (h : Highlighter) :
    Layers.get? layer (e.runHighlighter layer h).1.textView.layers =
      some (Interval.sort (h.highlight e.content)) := by
  have hlayers : (e.runHighlighter layer h).1.textView.layers =
      (Layers.edit e.textView.layers (.replace layer (h.highlight e.content))).1 :=
    e.textView.layers_editLayers [.replace layer (h.highlight e.content)]
  rw [hlayers]
  exact Layers.get?_edit_replace layer (h.highlight e.content) e.textView.layers

/-- Where a layer holds the styles of the script already, a highlighter changes nothing. -/
theorem runHighlighter_of_get?
    (hlayer : Layers.get? layer e.textView.layers = some (Interval.sort (h.highlight e.content))) :
    e.runHighlighter layer h = (e, false) := by
  have hedit : Layers.editAll e.textView.layers [.replace layer (h.highlight e.content)] =
      (e.textView.layers, false) := by
    simp [Layers.editAll, Layers.edit, hlayer]
  rw [runHighlighter, editLayers, TextView.editLayers, hedit]
  rfl

/-- The styles in a layer, if the text view is active: none, or those of the script. -/
def StylesFit (h : Highlighter) (layer : Nat) (e : Editor) : Prop :=
  e.mode = .text → Layers.get? layer e.textView.layers = none ∨
    Layers.get? layer e.textView.layers = some (Interval.sort (h.highlight e.content))

/-- An action that writes nothing to the layer of a highlighter leaves no styles of an older text in
it. -/
theorem StylesFit.act (hfit : StylesFit h layer e) {a : EditorAction} (ha : a.SparesLayer layer) :
    StylesFit h layer (e.act a) := by
  intro hmode
  rcases styles_act e a with ⟨edits, rfl⟩ | hsame | hdrawn
  · have hlayers : (e.act (.editLayers edits)).textView.layers =
        (Layers.editAll e.textView.layers edits).1 := e.textView.layers_editLayers edits
    rw [hlayers]
    rcases Layers.get?_editAll_of_spares ha e.textView.layers with hnone | hkept
    · exact Or.inl hnone
    · rw [hkept]
      exact hfit hmode
  · rw [hsame.layers_eq, hsame.content_eq]
    exact hfit (hsame.mode_eq.symm.trans hmode)
  · rw [hdrawn hmode]
    exact Or.inl rfl

theorem Highlighted.stylesFit (he : Highlighted h layer e) : StylesFit h layer e := by
  induction he with
  | ofBuffer lang buffer =>
      intro hmode
      have hblock : (Editor.ofBuffer lang buffer).mode = .block := (redrawn_render _).mode_eq
      rw [hblock] at hmode
      cases hmode
  | act a ha he ih => exact ih.act ha
  | @run e he ih => exact fun _ => Or.inr (get?_runHighlighter e layer h)

/-- What is promised of the styles that a highlighter writes to a layer. -/
structure CurrentStyles (h : Highlighter) (layer : Nat) (e : Editor) : Prop where
  /-- While the text view is active, the layer is not there, or it holds the styles of the script. -/
  shown : e.mode = .text → Layers.get? layer e.textView.layers = none ∨
    ∃ styles, Layers.get? layer e.textView.layers = some styles ∧
      Interval.StablySorted (h.highlight e.content) styles
  /-- After the highlighter was called, in either mode, the layer holds the styles of the script. -/
  written : ∃ styles,
    Layers.get? layer (e.runHighlighter layer h).1.textView.layers = some styles ∧
      Interval.StablySorted (h.highlight (e.runHighlighter layer h).1.content) styles
  /-- When it is called again at once, it says that nothing changed, and nothing is drawn. -/
  again : (e.runHighlighter layer h).1.runHighlighter layer h = ((e.runHighlighter layer h).1, false)

/-- **Styles never outlive their text**, whatever is done with an editor, as long as only one
highlighter writes to their layer. -/
theorem currentStyles_of_highlighted (he : Highlighted h layer e) : CurrentStyles h layer e where
  shown := fun hmode => by
    rcases he.stylesFit hmode with hnone | hsome
    · exact Or.inl hnone
    · exact Or.inr ⟨_, hsome, Interval.stablySorted_sort _⟩
  written := ⟨_, get?_runHighlighter e layer h, Interval.stablySorted_sort _⟩
  again := runHighlighter_of_get? (get?_runHighlighter e layer h)

/-- Styles that were found in block mode, an edit in the same mode, and the text view made active. -/
theorem currentStyles_of_highlighted_stale :
    let start := ofBuffer .standard (Buffer.create .standard "a.tks".toList "步骤:\n返回".toList)
    let styled := (start.runHighlighter syntaxLayer .standard).1
    let e := (styled.act (.edit (.remove 0))).act .toggleMode
    Highlighted .standard syntaxLayer e ∧ CurrentStyles .standard syntaxLayer e := by
  intro start styled e
  have hstyled : Highlighted .standard syntaxLayer styled := .run (.ofBuffer _ _)
  have he : Highlighted .standard syntaxLayer e := .act _ trivial (.act _ trivial hstyled)
  exact ⟨he, currentStyles_of_highlighted he⟩

end Editor

end StepScript
