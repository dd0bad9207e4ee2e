import ManualPages.Proofs.Page.Visits
import ManualPages.Proofs.Roff.Reading

/-! # What running text prints

Running text without references is set whatever it holds, and what it prints is its plain text if
every index entry in it is shown.  There is one exception: bold source has its first point escaped,
and in bold within bold the point may be escaped already (`Node.escapesTwice`); then a backslash is
printed in front of it.

* `boldPointAll`: does the first point of the plain text stand in bold?  In the source it is an
  escape then.
* `shown_inline`, `shown_inlines`: what inline nodes print, by the tree.
* `printed_inlines_eq_iff`: the plain text is printed exactly if no point is escaped twice. -/

namespace ManualPages.Page

open Setting
open Roff (PrintsUnless)

/-! ### The first point -/

/-- Is the source of the span bold when it is shown? -/
def setsBold : Role → Bool
  | .code => true
  | .index => true
  | _ => false

mutual

/-- Does the first point in the plain text of a node stand in bold? -/
def boldPoint : Inline → Bool
  | .text _ => false
  | .verb _ => false
  | .span .footnote _ => false
  | .span role content =>
    if setsBold role then decide ('.' ∈ Inline.plainAll content) else boldPointAll content
  | .reference _ content => boldPointAll content

/-- Does the first point in the plain text of a list of nodes stand in bold? -/
def boldPointAll : List Inline → Bool
  | [] => false
  | node :: rest => if '.' ∈ node.plain then boldPoint node else boldPointAll rest

end

/-- The first point in a bold span stands in bold within it, too. -/
def Node.escapesTwice : Node → Bool
  | inline (.span role content) => setsBold role && boldPointAll content
  | _ => false

def Node.isReference : Node → Bool
  | inline (.reference _ _) => true
  | _ => false

/-! ### Visits in running text -/

theorem Node.visits_span {role : Role} (h : role ≠ .footnote) (content : List Inline) :
    (Node.inline (.span role content)).visits =
      (Node.running content).visits ++ [.inline (.span role content)] := by
  rw [visits_eq]
  cases role with
  | footnote => exact absurd rfl h
  | _ => simp [opening, parts, closing]

theorem Node.visits_running (content : List Inline) : (Node.running content).visits =
    content.flatMap (fun node => (Node.inline node).visits) ++ [.running content] := by
  rw [visits_eq]
  simp [opening, parts, closing, List.flatMap_map]

theorem keys_visits_running_cons (node : Inline) (rest : List Inline) :
    keys (Node.running (node :: rest)).visits =
      keys (Node.inline node).visits ++ keys (Node.running rest).visits := by
  simp only [Node.visits_running, keys, List.flatMap_cons, List.filterMap_append, List.append_assoc]
  rfl

theorem any_visits_running_cons {p : Node → Bool} (hp : ∀ content, p (.running content) = false)
    (node : Inline) (rest : List Inline) : (Node.running (node :: rest)).visits.any p =
      ((Node.inline node).visits.any p || (Node.running rest).visits.any p) := by
  simp [Node.visits_running, hp]

/-! ### Inline nodes -/

/-- `n` is set from `σ`, and its source prints `text` unless a point in it is escaped twice;
`escaped` says whether the first point is an escape. -/
def Shown (σ : State) (n : Node) (text : List Char) (escaped : Bool) : Prop :=
  ∃ s τ, n.set.Yields σ s τ ∧
    PrintsUnless (n.visits.any Node.escapesTwice = true) s text escaped

theorem shown_leaf {σ : State} {n : Node} {s text : List Char} (run : n.set.Yields σ s σ)
    (alone : n.visits = [n]) (thin : n.escapesTwice = false) (prints : Roff.Prints s text false) :
    Shown σ n text false := by
  refine ⟨s, σ, run, prints.unless ?_⟩
  rw [alone, List.any_cons, thin]
  exact Bool.false_ne_true

theorem yields_newEntry {σ τ : State} {content : List Inline} {t : List Char}
    (body : (inlines content).Yields σ t τ)
    (absent : String.ofList (indexTerm content) ∉ τ.index.terms) :
    (inline (.span .index content)).Yields σ (Roff.bold t)
      { τ with index := τ.index.add (String.ofList (indexTerm content)) absent } := by
  refine yields_bind.mpr ⟨t, τ, body, yields_bind.mpr ⟨true, _, ?_, rfl⟩⟩
  rw [yields_register, TermIndex.register_of_not_mem absent]
  exact ⟨rfl, rfl⟩

/-- A span, given what it holds. -/
theorem shown_span {σ : State} {role : Role} {content : List Inline} (hr : role ≠ .footnote)
    (new : σ.index.AllNew (keys (Node.inline (.span role content)).visits))
    (h : Shown σ (.running content) (Inline.plainAll content) (boldPointAll content)) :
    Shown σ (.inline (.span role content)) (Inline.plain (.span role content))
      (boldPoint (.span role content)) := by
  obtain ⟨t, σ', body, prints⟩ := h
  unfold Shown
  rw [Node.visits_span hr, List.any_append, List.any_cons, List.any_nil, Bool.or_false,
    Bool.or_eq_true]
  have thin : ∀ role, setsBold role = false →
      ¬ (Node.inline (.span role content)).escapesTwice = true := by
    intro role h
    rw [Node.escapesTwice, h]
    exact Bool.false_ne_true
  cases role with
  | footnote => exact absurd rfl hr
  | emphasis =>
      refine ⟨Roff.italic t, σ', ?_, ?_⟩
      · exact yields_bind.mpr ⟨t, σ', body, rfl⟩
      · rw [or_iff_left (thin .emphasis rfl)]
        exact prints.italic
  | code =>
      refine ⟨Roff.bold t, σ', ?_, ?_⟩
      · exact yields_bind.mpr ⟨t, σ', body, rfl⟩
      · exact prints.bold
  | index =>
      have absent : String.ofList (indexTerm content) ∉ σ'.index.terms := by
        rw [Node.visits_span hr] at new
        unfold keys at new
        rw [List.filterMap_append, TermIndex.allNew_append] at new
        rw [Node.index_eq_of_yields body]
        exact new.2.2 _ (by simp [Node.key?])
      exact ⟨Roff.bold t, _, yields_newEntry body absent, prints.bold⟩
  | var =>
      refine ⟨t, σ', ?_, ?_⟩
      · exact yields_bind.mpr ⟨t, σ', body, rfl⟩
      · rw [or_iff_left (thin .var rfl)]
        exact prints
  | keyboard =>
      refine ⟨t, σ', ?_, ?_⟩
      · exact yields_bind.mpr ⟨t, σ', body, rfl⟩
      · rw [or_iff_left (thin .keyboard rfl)]
        exact prints

mutual

/-- What an inline node prints. -/
theorem shown_inline : (node : Inline) → {σ : State} →
    ((Node.inline node).visits.any Node.isReference = false) →
    σ.index.AllNew (keys (Node.inline node).visits) →
    Shown σ (.inline node) node.plain (boldPoint node)
  | .text x, σ, _, _ =>
      shown_leaf rfl (by rw [Node.visits_eq]; rfl) rfl (Roff.prints_escape x.toList)
  | .verb x, σ, _, _ =>
      shown_leaf rfl (by rw [Node.visits_eq]; rfl) rfl (Roff.prints_escape x.toList)
  | .reference target content, σ, noReference, _ => by
      rw [Node.visits_eq] at noReference
      simp [Node.closing, Node.isReference] at noReference
  | .span role content, σ, noReference, new => by
      by_cases hr : role = .footnote
      · subst hr
        exact shown_leaf rfl (by rw [Node.visits_eq]; rfl) rfl Roff.prints_nil
      · refine shown_span hr new (shown_inlines content ?_ ?_)
        · rw [Node.visits_span hr, List.any_append, Bool.or_eq_false_iff] at noReference
          exact noReference.1
        · rw [Node.visits_span hr] at new
          unfold keys at new ⊢
          rw [List.filterMap_append, TermIndex.allNew_append] at new
          exact new.1

/-- What inline nodes print, one after the other. -/
theorem shown_inlines : (content : List Inline) → {σ : State} →
    ((Node.running content).visits.any Node.isReference = false) →
    σ.index.AllNew (keys (Node.running content).visits) →
    Shown σ (.running content) (Inline.plainAll content) (boldPointAll content)
  | [], σ, _, _ => shown_leaf rfl (by rw [Node.visits_eq]; rfl) rfl Roff.prints_nil
  | node :: rest, σ, noReference, new => by
      rw [any_visits_running_cons fun _ => rfl, Bool.or_eq_false_iff] at noReference
      rw [keys_visits_running_cons, TermIndex.allNew_append] at new
      obtain ⟨s, σ', first, printsFirst⟩ := shown_inline node noReference.1 new.1
      have index : σ'.index = _ := Node.index_eq_of_yields first
      rw [← index] at new
      obtain ⟨t, τ, others, printsOthers⟩ := shown_inlines rest noReference.2 new.2
      refine ⟨s ++ t, τ, ?_, ?_⟩
      · exact yields_bind.mpr ⟨s, σ', first, yields_bind.mpr ⟨t, τ, others, rfl⟩⟩
      · rw [any_visits_running_cons fun _ => rfl, Bool.or_eq_true]
        exact printsFirst.append printsOthers

end

/-- **What running text prints.**  Running text that holds no reference outside footnotes, and in
which no index entry is left out, is set.  Its source prints its plain text exactly if it holds no
bold span whose first point stands in bold within it already. -/
theorem printed_inlines_eq_iff {σ : State} {content : List Inline}
    (noReference : ∀ n ∈ (Node.running content).visits, n.isReference = false)
    (new : σ.index.AllNew (keys (Node.running content).visits)) :
    ∃ s τ, (inlines content).Yields σ s τ ∧
      (Roff.printed s = Inline.plainAll content ↔
        ∀ n ∈ (Node.running content).visits, n.escapesTwice = false) := by
  have none : (Node.running content).visits.any Node.isReference = false := by
    simpa using noReference
  obtain ⟨s, τ, run, once, twice⟩ := shown_inlines content none new
  refine ⟨s, τ, run, ?_⟩
  constructor
  · intro same n hn
    by_contra h
    obtain ⟨w, e, prints, longer⟩ := twice (List.any_eq_true.mpr ⟨n, hn, by simpa using h⟩)
    rw [← same, prints.printed_eq] at longer
    exact Nat.lt_irrefl _ longer
  · intro never
    exact (once (by simpa using never)).printed_eq

/-- Code within code: the point is escaped twice, and a backslash is printed. -/
theorem printed_nested_code :
    (∀ n ∈ (Node.running [.span .code [.span .code [.text "a.b"]]]).visits,
      n.isReference = false) ∧
    TermIndex.empty.AllNew
      (keys (Node.running [.span .code [.span .code [.text "a.b"]]]).visits) ∧
    (inlines [.span .code [.span .code [.text "a.b"]]]).Yields .initial
      "\\&\\fB\\&\\fBa\\\\.b\\fP\\fP".toList .initial ∧
    Roff.printed "\\&\\fB\\&\\fBa\\\\.b\\fP\\fP".toList ≠
      Inline.plainAll [.span .code [.span .code [.text "a.b"]]] := by
  have visits : (Node.running [.span .code [.span .code [.text "a.b"]]]).visits =
      [.inline (.text "a.b"), .running [.text "a.b"], .inline (.span .code [.text "a.b"]),
        .running [.span .code [.text "a.b"]], .inline (.span .code [.span .code [.text "a.b"]]),
        .running [.span .code [.span .code [.text "a.b"]]]] := by
    simp [Node.visits_eq, Node.opening, Node.parts, Node.closing]
  have noReference : ∀ n ∈ (Node.running [.span .code [.span .code [.text "a.b"]]]).visits,
      n.isReference = false := by
    rw [visits]
    simp [Node.isReference]
  have new : State.initial.index.AllNew
      (keys (Node.running [.span .code [.span .code [.text "a.b"]]]).visits) := by
    rw [visits]
    exact ⟨by decide, by decide⟩
  have run : (inlines [.span .code [.span .code [.text "a.b"]]]).Yields .initial
      "\\&\\fB\\&\\fBa\\\\.b\\fP\\fP".toList .initial := rfl
  refine ⟨noReference, new, run, fun same => ?_⟩
  obtain ⟨s, τ, run', exact⟩ := printed_inlines_eq_iff noReference new
  obtain ⟨rfl, -⟩ := run.unique run'
  have never := exact.mp same (.inline (.span .code [.span .code [.text "a.b"]])) (by simp [visits])
  exact absurd never (by decide)

end ManualPages.Page
