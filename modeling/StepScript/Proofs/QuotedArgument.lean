import StepScript.Proofs.QuotedWord
import StepScript.Shell.Expansion

/-!
# Quoted texts as arguments

A word that means a text is expanded to the text, whatever it is expanded for. Among the arguments of
a command it is one argument: it is not cut into fields, and it stands for no names of files, whatever
separators are set and whatever files there are.

So a text that the shell shows in quotes is what a script gets that it is pasted into.

Main statements:

* `expand_of_means` — what such a word is expanded to;
* `expandText_of_means`, `expandFields_of_means` — it is the text, and one argument;
* `argument_quoted` — so is a quoted text that is read from a script.
-/

set_option autoImplicit false

namespace StepScript.Shell

/-! ## The atoms of a word -/

/-- What is left of a piece in an expanded word, which may keep apart what is quoted. -/
def Piece.atoms (marks : Bool) : Piece → List Atom
  | .quote => if marks then [.quote] else []
  | .plain c => [.byte c marks]
  | .char c => [.byte c false]
  | _ => []

namespace Word

def atoms (marks : Bool) (w : Word) : List Atom :=
  w.flatMap (Piece.atoms marks)

theorem atoms_append (marks : Bool) (v w : Word) :
    atoms marks (v ++ w) = atoms marks v ++ atoms marks w :=
  List.flatMap_append

theorem atoms_map_char (marks : Bool) (s : Bytes) :
    atoms marks (s.map .char) = s.map fun c => .byte c false := by
  induction s with
  | nil => rfl
  | cons c s ih => exact congrArg (.byte c false :: ·) ih

theorem atoms_ne_nil {w : Word} (h : ∀ p ∈ w, p.Literal) (hne : w ≠ []) : w.atoms true ≠ [] := by
  obtain ⟨p, w, rfl⟩ := List.exists_cons_of_ne_nil hne
  rw [atoms, List.flatMap_cons]
  cases h p List.mem_cons_self <;> exact List.cons_ne_nil _ _

theorem Means.text_atoms {w : Word} {s : Bytes} (h : w.Means s) (marks : Bool) :
    Atom.text (w.atoms marks) = s := by
  rw [← h.text_eq]
  have hliteral := h.literal
  clear h
  induction w with
  | nil => rfl
  | cons p w ih =>
    have hw := ih fun q hq => hliteral q (List.mem_cons_of_mem _ hq)
    have hcons : Atom.text (atoms marks (p :: w)) =
        Atom.text (p.atoms marks) ++ Atom.text (atoms marks w) :=
      List.filterMap_append
    rw [hcons, hw]
    cases hliteral p List.mem_cons_self with
    | quote => cases marks <;> rfl
    | plain c => rfl
    | char h => rfl

end Word

namespace Expand

/-! ## Expansions -/

variable {p : Purpose}

theorem bind_of_ok {α β : Type} {x : Expand α} {f : α → Expand β} {e e' : Expanded} {m m' : Machine}
    {a : α} (h : x e m = .ok (a, e') m') : (x >>= f) e m = f a e' m' := by
  change EStateM.bind (x e) _ m = _
  unfold EStateM.bind
  rw [h]

/-- An expanded word with more atoms. -/
def append (e : Expanded) (atoms : List Atom) : Expanded :=
  ⟨e.atoms ++ atoms.toArray, e.regions⟩

theorem append_nil (e : Expanded) : append e [] = e := by
  simp [append]

theorem append_append (e : Expanded) (v w : List Atom) :
    append (append e v) w = append e (v ++ w) := by
  simp [append, Array.append_assoc]

theorem add_eq (a : Atom) (e : Expanded) (m : Machine) : add a e m = .ok ((), append e [a]) m := by
  obtain ⟨atoms, regions⟩ := e
  change EStateM.Result.ok ((), (⟨atoms.push a, regions⟩ : Expanded)) m = _
  rw [Array.push_eq_append]
  rfl

theorem addValue_eq (p : Purpose) (value : Bytes) (e : Expanded) (m : Machine) :
    addValue p value e m =
      .ok ((), append e
        (value.map fun c => .byte c (p.marks && p.quoted && Parse.isGuarded c))) m := by
  obtain ⟨atoms, regions⟩ := e
  rw [append, ← List.foldl_push_eq_append]
  rfl

/-! ### Pieces -/

section

variable (run : Runner) (fuel : Nat) (inQuotes : Bool) (e : Expanded) (m : Machine)

theorem pieces_quote {w : Word} (hw : ∀ q ∈ w, q.Literal) :
    pieces run (fuel + 1) p inQuotes (.quote :: w) e m =
      pieces run fuel p (!inQuotes) w (append e (Piece.atoms p.marks .quote)) m := by
  rw [pieces]
  · cases hmarks : p.marks with
    | true =>
      rw [if_pos rfl, bind_of_ok (add_eq _ e m)]
      rfl
    | false =>
      rw [if_neg Bool.false_ne_true, Piece.atoms, if_neg Bool.false_ne_true, append_nil]
  · -- quotes around a parameter for all arguments are expanded in another way
    intro rest hrest
    cases hw _ (hrest ▸ List.mem_cons_self)

theorem pieces_plain (c : Char) (w : Word) :
    pieces run (fuel + 1) p inQuotes (.plain c :: w) e m =
      pieces run fuel p inQuotes w (append e [.byte c p.marks]) m := by
  rw [pieces, bind_of_ok (add_eq _ e m)]

/-- Unquoted characters are taken together. -/
theorem pieces_char (hp : p.inParam = false) {c : Char} {w rest : Word} {text : Bytes}
    (hliteral : literal p (.char c :: w) = (text, rest, p.behindEquals))
    (htext : ∀ d ∈ text, Parse.isGuarded d = false) :
    pieces run (fuel + 1) p inQuotes (.char c :: w) e m =
      pieces run fuel p inQuotes rest (append e (text.map fun c => .byte c false)) m := by
  have hequals : text.getLast? ≠ some '=' := fun hlast => by
    cases htext _ (List.mem_of_getLast? hlast)
  have hcolon : text.getLast? ≠ some ':' := fun hlast => by
    cases htext _ (List.mem_of_getLast? hlast)
  rw [pieces, bind_of_ok (show place e m = .ok (e.atoms.size, e) m from rfl), hliteral]
  dsimp only
  -- the characters may neither be separators nor stand in front of a tilde
  rw [bind_of_ok (addValue_eq _ text e m), if_neg (by simp [hp]),
    if_neg (by simp [hequals, hcolon])]
  refine (bind_of_ok rfl).trans ?_
  simp

end

theorem literal_of_literal (p : Purpose) {w : Word} (h : ∀ q ∈ w, q.Literal) :
    ∃ (text : Bytes) (rest : Word), literal p w = (text, rest, p.behindEquals) ∧
      w = text.map .char ++ rest ∧ (∀ c t, w = .char c :: t → rest.length < w.length) := by
  induction w with
  | nil => exact ⟨[], [], rfl, rfl, fun c t h => by cases h⟩
  | cons q w ih =>
    obtain ⟨text, rest, hliteral, hw, -⟩ := ih fun q hq => h q (List.mem_cons_of_mem _ hq)
    cases h q List.mem_cons_self with
    | quote => exact ⟨[], _, rfl, rfl, fun c t h => by cases h⟩
    | plain c => exact ⟨[], _, rfl, rfl, fun c t h => by cases h⟩
    | @char c hc =>
      have hcolon : c ≠ ':' := by rintro rfl; cases hc
      have hequals : c ≠ '=' := by rintro rfl; cases hc
      refine ⟨c :: text, rest, ?_, by rw [hw]; rfl, fun _ _ _ => ?_⟩
      · rw [literal, if_neg (by simp [hcolon, hequals]), hliteral]
      · rw [hw, List.length_cons, List.length_append]
        omega

theorem pieces_of_literal (run : Runner) (hp : p.inParam = false) {fuel : Nat} {w : Word}
    (hlength : w.length < fuel) (h : ∀ q ∈ w, q.Literal) (inQuotes : Bool) (e : Expanded)
    (m : Machine) :
    pieces run fuel p inQuotes w e m = .ok ((), append e (w.atoms p.marks)) m := by
  induction fuel generalizing w inQuotes e with
  | zero => cases hlength
  | succ fuel ih =>
    cases w with
    | nil =>
      rw [pieces, Word.atoms, List.flatMap_nil, append_nil]
      rfl
    | cons q w =>
      have hw : ∀ q ∈ w, q.Literal := fun q hq => h q (List.mem_cons_of_mem _ hq)
      have hlt : w.length < fuel := Nat.lt_of_succ_lt_succ hlength
      cases h q List.mem_cons_self with
      | quote =>
        rw [pieces_quote _ _ _ _ _ hw, ih hlt hw, append_append]
        rfl
      | plain c =>
        rw [pieces_plain, ih hlt hw, append_append]
        rfl
      | @char c hc =>
        obtain ⟨text, rest, hliteral, hsplit, hshorter⟩ := literal_of_literal p h
        have hrest : ∀ q ∈ rest, q.Literal := fun q hq => h q (hsplit ▸ List.mem_append_right _ hq)
        have htext : ∀ d ∈ text, Parse.isGuarded d = false := by
          intro d hd
          cases h (.char d) (hsplit ▸ List.mem_append_left _ (List.mem_map_of_mem hd)) with
          | char hd => exact hd
        have hrestlt : rest.length < fuel := by
          have := hshorter c w rfl
          omega
        rw [pieces_char _ _ _ _ _ hp hliteral htext, ih hrestlt hrest, append_append, hsplit,
          Word.atoms_append, Word.atoms_map_char]

/-- A tilde in front of a word is no character that is taken as it is. -/
theorem expandTilde_of_literal (p : Purpose) {w : Word} (h : ∀ q ∈ w, q.Literal) (e : Expanded)
    (m : Machine) : expandTilde p w e m = .ok (w, e) m := by
  unfold expandTilde
  split
  · cases h _ List.mem_cons_self with
    | char htilde => cases htilde
  · rfl

theorem word_of_means (run : Runner) (hp : p.inParam = false) {w : Word} {s : Bytes}
    (h : w.Means s) (hlength : w.length < Parse.limit) (m : Machine) :
    word run p w .empty m = .ok ((), ⟨(w.atoms p.marks).toArray, []⟩) m := by
  have hpieces : pieces run Parse.limit p false w .empty m =
      .ok ((), ⟨(w.atoms p.marks).toArray, []⟩) m := by
    rw [pieces_of_literal run hp hlength h.literal, append]
    simp [Expanded.empty]
  unfold word
  split
  · exact (bind_of_ok (expandTilde_of_literal p h.literal _ m)).trans hpieces
  · exact hpieces

end Expand

namespace Act

/-- **What a word that means a text is expanded to**, but for the words of parameters. -/
theorem expand_of_means (run : Runner) {p : Purpose} (hp : p.inParam = false) {w : Word} {s : Bytes}
    (h : w.Means s) (hlength : w.length < Parse.limit) (m : Machine) :
    expand run p w m = .ok ⟨(w.atoms p.marks).toArray, []⟩ m :=
  bind_eq_ok.2 ⟨_, m, Expand.word_of_means run hp h hlength m, rfl⟩

theorem expandText_of_means (run : Runner) {p : Purpose} (hp : p.inParam = false) {w : Word}
    {s : Bytes} (h : w.Means s) (hlength : w.length < Parse.limit) (m : Machine) :
    expandText run p w m = .ok s m := by
  refine bind_eq_ok.2 ⟨_, m, expand_of_means run hp h hlength m, ?_⟩
  rw [← h.text_atoms p.marks]
  rfl

/-- Where nothing may separate fields, all atoms are one field. -/
theorem fields_of_regions (separators : Bytes) {atoms : List Atom} (h : atoms ≠ []) :
    Expanded.fields separators none ⟨atoms.toArray, []⟩ = [atoms] := by
  simp [Expanded.fields, Splitting.regions, h]

/-- Every character that may mean something in a pattern is guarded. -/
theorem isPattern_atoms {w : Word} (h : ∀ q ∈ w, q.Literal) :
    Atom.isPattern (w.atoms true) = false := by
  rw [Atom.isPattern, List.any_eq_false]
  intro a ha
  obtain ⟨q, hq, ha⟩ := List.mem_flatMap.1 ha
  cases h q hq with
  | quote =>
    obtain rfl := List.mem_singleton.1 ha
    decide
  | plain c =>
    obtain rfl := List.mem_singleton.1 ha
    simp
  | @char c hc =>
    obtain rfl := List.mem_singleton.1 ha
    have hmeans : c ≠ '*' ∧ c ≠ '?' ∧ c ≠ '[' := by
      refine ⟨?_, ?_, ?_⟩ <;> rintro rfl <;> cases hc
    simp [hmeans]

theorem matchFiles_of_not_isPattern {atoms : List Atom} (h : Atom.isPattern atoms = false)
    (m : Machine) : matchFiles atoms m = .ok [Atom.text atoms] m := by
  refine bind_eq_ok.2 ⟨_, m, rfl, ?_⟩
  rw [h, if_pos (by simp)]
  rfl

/-- **A word that means a text is one argument**, whatever separates fields and whatever files there
are. -/
theorem expandFields_of_means (run : Runner) {w : Word} {s : Bytes} (h : w.Means s) (hne : w ≠ [])
    (hlength : w.length < Parse.limit) (m : Machine) : expandFields run w m = .ok [s] m := by
  have hfields := matchFiles_of_not_isPattern (isPattern_atoms h.literal) m
  rw [h.text_atoms] at hfields
  have hatoms := Word.atoms_ne_nil h.literal hne
  refine bind_eq_ok.2 ⟨_, m, expand_of_means run rfl h hlength m, bind_eq_ok.2 ⟨_, m, rfl, ?_⟩⟩
  rw [show Purpose.marks .argument = true from rfl, fields_of_regions _ hatoms]
  exact bind_eq_ok.2 ⟨[[s]], m, bind_eq_ok.2 ⟨[s], m, hfields, rfl⟩, rfl⟩

end Act

/-- **A quoted text in a script is one argument, which is the text.** -/
theorem argument_quoted {s : Bytes} (hmarks : ∀ c ∈ s, isMark c = false)
    (hlength : (quoted s).length < Parse.limit) {t : List Char} (ht : Parse.EndsWord t)
    (commands : CommandReader) :
    ∃ w : Word,
      (∀ r : Reading, r.rest = quoted s ++ t → r.pushedBack = false →
        Parse.token commands r =
          .ok .word
            { Parse.wordFound (r.skipTo t (s.count '\n')) w with expected := .plain }) ∧
      ∀ (run : Runner) (m : Machine), Act.expandFields run w m = .ok [s] m := by
  obtain ⟨w, hw, hlen, htoken⟩ := Parse.token_quoted hmarks hlength ht
  have hne : w ≠ [] := by
    intro hnil
    rw [hnil] at hlen
    cases hlen
  exact ⟨w, htoken, fun run m => Act.expandFields_of_means run hw hne (hlen ▸ hlength) m⟩

end StepScript.Shell
