import ManualPages.Proofs.Page.Traversal
import ManualPages.Proofs.Signature.Shown
import Mathlib.Data.List.Infix

/-! # Line ends behind items

The items of description and method lists are put one behind the other, each with its last line
ended.  Line ends that an item has already are not taken away, but for one behind a description.

* `Roff.emptyLine_suffix_endLine_iff`, `Roff.emptyLine_suffix_chomp_iff`: when a text ends with an
  empty line after the editing of its end.
* `Signature.unended_of_show?`: a signature does not end with a newline.
* `emptyLine_at_end_iff`: when an item ends with an empty line. -/

namespace ManualPages

/-! ### Editing the end of a text -/

namespace Roff

/-- What one line terminator can be. -/
def IsTerminator (e : List Char) : Prop := e = ['\n'] ∨ e = ['\r'] ∨ e = ['\r', '\n']

theorem newline_suffix_endLine (s : List Char) : ['\n'] <:+ endLine s := by
  obtain ⟨t, e⟩ := List.getLast?_eq_some_iff.mp (getLast?_endLine s)
  rw [e]
  exact List.suffix_append t ['\n']

theorem emptyLine_suffix_endLine_iff (s : List Char) :
    ['\n', '\n'] <:+ endLine s ↔ ['\n', '\n'] <:+ s := by
  unfold endLine
  split
  · rfl
  · next unended =>
    constructor
    · intro h
      obtain ⟨⟨t, e⟩, -⟩ : ['\n'] <:+ s ∧ _ := (List.suffix_append_inj_of_length_eq rfl).mp h
      exact absurd (List.getLast?_eq_some_iff.mpr ⟨t, e.symm⟩) unended
    · rintro ⟨t, e⟩
      exact absurd (List.getLast?_eq_some_iff.mpr ⟨t ++ ['\n'], by simp [← e]⟩) unended

/-- Without its last terminator a text ends with an empty line if it had one in front of that. -/
theorem emptyLine_suffix_chomp_iff (s : List Char) : ['\n', '\n'] <:+ chomp s ↔
    ∃ e, IsTerminator e ∧ ['\n', '\n'] ++ e <:+ s := by
  obtain ⟨r, rfl⟩ := List.reverse_surjective s
  have terminators : (∃ e, IsTerminator e ∧ ['\n', '\n'] ++ e <:+ r.reverse) ↔
      ['\n', '\n', '\n'] <+: r ∨ ['\r', '\n', '\n'] <+: r ∨ ['\n', '\r', '\n', '\n'] <+: r := by
    simp [IsTerminator, or_and_right, exists_or, ← List.reverse_prefix]
  rw [terminators, ← List.reverse_prefix]
  -- the last character, and before a newline the one in front of it, decide what is taken away
  rcases r with _ | ⟨c, r⟩
  · simp [chomp]
  · by_cases newline : c = '\n'
    · subst newline
      rcases r with _ | ⟨d, r⟩
      · simp [chomp]
      · by_cases back : d = '\r'
        · subst back
          simp [chomp]
        · simp [chomp, back, Ne.symm back]
    · by_cases back : c = '\r'
      · subst back
        simp [chomp]
      · simp [chomp, newline, back, Ne.symm newline, Ne.symm back]

theorem getLast?_escape (s : List Char) : (escape s).getLast? = s.getLast? := by
  rw [escape_eq_guardAll]
  rcases List.eq_nil_or_concat s with rfl | ⟨t, c, rfl⟩
  · rfl
  · rw [List.concat_eq_append, guardAll_append, guardAll, guardAll, ← List.append_assoc,
      List.getLast?_concat, List.getLast?_concat]

end Roff

/-! ### Texts without a newline at the end -/

/-- The last character is not a newline. -/
def Text.Unended (s : List Char) : Prop := ∀ c ∈ s.getLast?, c ≠ '\n'

namespace Text.Unended

variable {s t : List Char}

theorem append_iff (written : t ≠ []) : Unended (s ++ t) ↔ Unended t := by
  rw [Unended, List.getLast?_append_of_ne_nil s written, Unended]

theorem append (hs : Unended s) (ht : Unended t) : Unended (s ++ t) := by
  by_cases written : t = []
  · rwa [written, List.append_nil]
  · exact (append_iff written).mpr ht

theorem trim (s : List Char) : Unended (Text.trim s) := by
  rintro c hc rfl
  exact absurd (getLast?_trim s '\n' hc) (by decide)

theorem escape (h : Unended s) : Unended (Roff.escape s) := by
  rwa [Unended, Roff.getLast?_escape]

theorem not_emptyLine_suffix (h : Unended s) : ¬ ['\n', '\n'] <:+ s := by
  rintro ⟨t, rfl⟩
  exact h '\n' (by simp) rfl

end Text.Unended

/-! ### Signatures -/

namespace Signature

open Text (Unended)

theorem Divides.ownerless {s : Signature} {text sep : List Char} (h : s.Divides text sep)
    (nameless : s.name = []) : s.owner = [] ∧ s.relation = .function := by
  have function : s.relation = .function := by
    cases r : s.relation with
    | function => rfl
    | ofInstance => exact absurd nameless (h.ofInstance r).2.2.1
    | ofModule => exact absurd nameless (h.ofModule r).2.2.1
  exact ⟨h.owner_eq_nil_iff.mpr function, function⟩

theorem Divides.unended {s : Signature} {d sep : List Char} (h : s.Divides (Text.trim d) sep) :
    Unended (s.owner ++ s.relation.separator ++ s.name ++ s.args) := by
  rw [List.append_assoc]
  by_cases written : s.name ++ s.args = []
  · obtain ⟨owner, function⟩ := h.ownerless (List.append_eq_nil_iff.mp written).1
    simp [written, owner, function, Relation.separator, Unended]
  · have whole := Unended.trim d
    rw [h.eq_append, List.append_assoc, Unended.append_iff written] at whole
    exact (Unended.append_iff written).mpr whole

/-- A signature does not end with a newline. -/
theorem unended_of_show? {d shown : List Char} (h : (parse d).show? = some shown) :
    Unended shown := by
  obtain ⟨sep, division⟩ := exists_divides d
  by_cases element : (parse d).name = ['[', ']']
  · rw [show?, if_pos element] at h
    cases h
    exact (Unended.append_iff (by decide)).mpr (by simp [Unended])
  · by_cases assignment : (parse d).name = ['[', ']', '=']
    · rw [show?, if_neg element, if_pos assignment] at h
      split at h
      · next index value _ =>
        cases h
        have equals : Unended [']', ' ', '=', ' '] := by simp [Unended]
        exact ((Unended.append_iff (by decide)).mpr equals).append (Unended.trim value)
      · cases h
    · rw [division.show?_eq ⟨element, assignment⟩] at h
      cases h
      exact division.unended

end Signature

namespace Page

open Setting

/-! ### Items -/

/-- The text is set for the description, up to the end of its last line. -/
def SetsDescription (d : Description) (text : List Char) : Prop :=
  ∃ σ₁ σ₂ σ₃ term pieces, (inlines d.term).Yields σ₁ term σ₂ ∧
    (blocks .description d.body).Yields σ₂ pieces σ₃ ∧ text = termItem term pieces

/-- The text is set for the method, up to the end of its last line. -/
def SetsMethod (m : Method) (text : List Char) : Prop :=
  ∃ σ₁ σ₂ shown pieces, (Signature.parse m.descriptor.toList).show? = some shown ∧
    (blocks .method m.body).Yields σ₁ pieces σ₂ ∧ text = termItem (Roff.escape shown) pieces

theorem blocks_eq_nil_iff {context : Context} {content : List Block} {σ τ : State}
    {pieces : List (List Char)} (h : (blocks context content).Yields σ pieces τ) :
    pieces = [] ↔ content = [] := by
  cases content with
  | nil =>
      rw [blocks, yields_pure] at h
      simp [h.1]
  | cons b rest =>
      simp only [blocks, yields_bind, yields_pure] at h
      obtain ⟨first, _, _, others, _, _, rfl, _⟩ := h
      simp

theorem exists_of_yields_description {d : Description} {σ τ : State} {s : List Char}
    (h : (description d).Yields σ s τ) : ∃ text, SetsDescription d text ∧
      s = if d.body = [] then text else Roff.chomp text := by
  obtain ⟨term, body⟩ := d
  simp only [description, yields_bind, yields_pure] at h
  obtain ⟨t, σ', ht, pieces, τ', hp, rfl, rfl⟩ := h
  refine ⟨_, ⟨σ, σ', _, t, pieces, ht, hp, rfl⟩, ?_⟩
  have none := blocks_eq_nil_iff hp
  simp [descriptionItem, none]

theorem exists_of_yields_method {m : Method} {σ τ : State} {s : List Char}
    (h : (method m).Yields σ s τ) : SetsMethod m s := by
  obtain ⟨descriptor, body⟩ := m
  simp only [method, yields_bind, yields_pure, yields_signature] at h
  obtain ⟨shown, _, ⟨parsed, rfl⟩, pieces, τ', hp, rfl, rfl⟩ := h
  exact ⟨_, _, shown, pieces, parsed, hp, rfl⟩

theorem exists_parts {α : Type} {node : α → Node} {items : List α} {σ τ : State} {s : List Char}
    (h : (List.flatMap Roff.endLine <$> setAll (items.map node)).Yields σ s τ) :
    ∃ parts : List (List Char), s = parts.flatten ∧ List.Forall₂ (fun item part =>
      ∃ σ' text τ', (node item).set.Yields σ' text τ' ∧ part = Roff.endLine text) items parts := by
  obtain ⟨texts, ht, rfl⟩ := yields_map.mp h
  have each : List.Forall₂ (fun n text => ∃ σ' τ', Yields (Node.set n) σ' text τ')
      (items.map node) texts :=
    forall₂_of_yields_setAll ht fun _ p _ _ σ' t τ' _ _ hp => ⟨σ', τ', hp⟩
  refine ⟨texts.map Roff.endLine, (List.flatMap_def ..), ?_⟩
  rw [List.forall₂_map_right_iff]
  refine (List.forall₂_map_left_iff.mp each).imp ?_
  rintro item text ⟨σ', τ', run⟩
  exact ⟨σ', text, τ', run, rfl⟩

theorem not_emptyLine_suffix_method {m : Method} {text : List Char} (h : SetsMethod m text)
    (alone : m.body = []) : ¬ ['\n', '\n'] <:+ text := by
  obtain ⟨σ₁, σ₂, shown, pieces, parsed, hp, rfl⟩ := h
  obtain rfl := (blocks_eq_nil_iff hp).mpr alone
  have item : termItem (Roff.escape shown) [] = ".TP\n.fi\n.B\n".toList ++ Roff.escape shown :=
    List.append_nil _
  rw [item]
  by_cases written : Roff.escape shown = []
  · rw [written]
    decide
  · have unended := (Signature.unended_of_show? parsed).escape
    exact ((Text.Unended.append_iff written).mpr unended).not_emptyLine_suffix

/-- **Line ends behind items.**  Every item of a description or method list ends with a newline.
It ends with two if there was an empty line in what is set for it already: in front of its last
terminator, for a description with blocks, and at its end otherwise.  A method without blocks ends
with one newline only. -/
theorem emptyLine_at_end_iff (context : Context) (σ τ : State) (s : List Char) :
    (∀ items : List Description, (block context (.descriptionList items)).Yields σ s τ →
      ∃ parts : List (List Char), s = parts.flatten ∧
        List.Forall₂ (fun d part => ∃ text, SetsDescription d text ∧
          part = Roff.endLine (if d.body = [] then text else Roff.chomp text) ∧
          ['\n'] <:+ part ∧ (['\n', '\n'] <:+ part ↔
            d.body = [] ∧ ['\n', '\n'] <:+ text ∨
            d.body ≠ [] ∧ ∃ e, Roff.IsTerminator e ∧ ['\n', '\n'] ++ e <:+ text)) items parts) ∧
    ∀ items : List Method, (block context (.methodList items)).Yields σ s τ →
      ∃ parts : List (List Char), s = parts.flatten ∧
        List.Forall₂ (fun m part => ∃ text, SetsMethod m text ∧ part = Roff.endLine text ∧
          ['\n'] <:+ part ∧
          (['\n', '\n'] <:+ part ↔ m.body ≠ [] ∧ ['\n', '\n'] <:+ text)) items parts := by
  constructor
  · intro items h
    rw [block, descriptions_eq] at h
    obtain ⟨parts, whole, each⟩ := exists_parts h
    refine ⟨parts, whole, each.imp ?_⟩
    rintro d part ⟨σ', text, τ', run, rfl⟩
    obtain ⟨text', sets, rfl⟩ := exists_of_yields_description run
    refine ⟨text', sets, rfl, Roff.newline_suffix_endLine _, ?_⟩
    rw [Roff.emptyLine_suffix_endLine_iff]
    by_cases alone : d.body = []
    · simp [alone]
    · rw [if_neg alone, Roff.emptyLine_suffix_chomp_iff]
      simp [alone]
  · intro items h
    rw [block, methods_eq] at h
    obtain ⟨parts, whole, each⟩ := exists_parts h
    refine ⟨parts, whole, each.imp ?_⟩
    rintro m part ⟨σ', text, τ', run, rfl⟩
    have sets := exists_of_yields_method run
    refine ⟨text, sets, rfl, Roff.newline_suffix_endLine _, ?_⟩
    rw [Roff.emptyLine_suffix_endLine_iff]
    by_cases alone : m.body = []
    · simp [alone, not_emptyLine_suffix_method sets alone]
    · simp [alone]

/-- The same empty line behind a description and behind a method: the method keeps it. -/
theorem emptyLine_at_end_method :
    (block .document (.descriptionList [⟨[.text "a"], [.paragraph [.text "b\n\n"]]⟩])).Yields
      .initial ".TP\n.fi\n.B\na\nb\n".toList .initial ∧
    (block .document (.methodList [⟨"a", [.paragraph [.text "b\n\n"]]⟩])).Yields
      .initial ".TP\n.fi\n.B\na\n.PP\nb\n\n".toList .initial ∧
    ∃ text, SetsMethod ⟨"a", [.paragraph [.text "b\n\n"]]⟩ text ∧ ['\n', '\n'] <:+ text := by
  have run : (block .document (.methodList [⟨"a", [.paragraph [.text "b\n\n"]]⟩])).Yields
      .initial ".TP\n.fi\n.B\na\n.PP\nb\n\n".toList .initial := rfl
  obtain ⟨parts, whole, each⟩ := (emptyLine_at_end_iff _ _ _ _).2 _ run
  refine ⟨rfl, run, ?_⟩
  obtain ⟨part, others, ⟨text, sets, -, -, twice⟩, none, rfl⟩ := List.forall₂_cons_left_iff.mp each
  obtain rfl := List.forall₂_nil_left_iff.mp none
  rw [List.flatten_singleton] at whole
  exact ⟨text, sets, (twice.mp (whole ▸ by decide)).2⟩

end Page

end ManualPages
