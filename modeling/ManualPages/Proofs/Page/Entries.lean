import ManualPages.Proofs.Page.Index
import ManualPages.Proofs.Page.Traversal

/-! # Which index entries are shown

An index entry is shown where its term is met for the first time, and left out afterwards.  The term
is the text that stands directly in the entry; what stands in spans in it does not count.

* `Node.entries`: the index entries that are completed while a node is set, in order, each with its
  text.
* `ShownOnce`: each entry of such a list is left out exactly if its term was recorded before.
  `recorded` has it for every run, by induction over the tree.
* `text_eq_nil_iff_repeated`: in a page an entry is left out exactly if one with the same direct
  text has been shown before.  Its own text may be another one (`not_repeated_of_plain_text`). -/

namespace ManualPages.Page

open Setting

/-! ### The entries of a run -/

/-- An index entry that has been set: what it holds, and its text. -/
structure Entry where
  content : List Inline
  text : List Char
deriving Repr

def Entry.term (e : Entry) : String := String.ofList (indexTerm e.content)

/-- The nodes, each with the state in which it is begun when they are set one after the other. -/
def begun : List Node → State → List (Node × State)
  | [], _ => []
  | n :: rest, σ => (n, σ) :: match n.set.runFrom σ with
    | (.ok _, τ) => begun rest τ
    | (.error _, _) => []

theorem fst_mem_of_mem_begun {nodes : List Node} {σ : State} {x : Node × State}
    (h : x ∈ begun nodes σ) : x.1 ∈ nodes := by
  induction nodes generalizing σ with
  | nil => cases h
  | cons n rest ih =>
      rw [begun] at h
      rcases List.mem_cons.mp h with rfl | h
      · exact List.mem_cons_self
      · split at h
        · exact List.mem_cons_of_mem n (ih h)
        · cases h

namespace Node

/-- What an index entry holds. -/
def entry? : Node → Option (List Inline)
  | inline (.span .index content) => some content
  | _ => none

/-- The node itself with its text, if it is an index entry. -/
def ownEntry (n : Node) (σ : State) : List Entry :=
  match n.entry?, (n.set.runFrom σ).1 with
  | some content, .ok text => [⟨content, text⟩]
  | _, _ => []

/-- The index entries that are completed while `n` is set from `σ` without a fault, in order: an
entry after those in it. -/
def entries (n : Node) (σ : State) : List Entry :=
  ((begun n.parts (n.enter σ)).attach.flatMap fun x => entries x.1.1 x.1.2) ++ n.ownEntry σ
termination_by n.size
decreasing_by exact size_lt_of_mem_parts (fst_mem_of_mem_begun x.2)

theorem entries_eq (n : Node) (σ : State) : n.entries σ =
    ((begun n.parts (n.enter σ)).flatMap fun x => x.1.entries x.2) ++ n.ownEntry σ := by
  rw [entries, List.flatMap_subtype, List.unattach_attach]
  intro x hx
  rfl

theorem key?_eq (n : Node) :
    n.key? = n.entry?.map fun content => String.ofList (indexTerm content) := by
  rcases n with node | _ | _ | _ | _ | _ | _ | _
  case inline =>
    rcases node with _ | _ | ⟨role, content⟩ | _
    case span => cases role <;> rfl
    all_goals rfl
  all_goals rfl

theorem index_enter (n : Node) (σ : State) : (n.enter σ).index = σ.index := by
  unfold enter
  split <;> rfl

end Node

/-! ### Shown once -/

/-- An entry is left out exactly if its term is in the index; then it is recorded. -/
def ShownOnce (index : TermIndex) : List Entry → Prop
  | [] => True
  | e :: rest => (e.text = [] ↔ e.term ∈ index.terms) ∧ ShownOnce (index.register e.term).2 rest

theorem shownOnce_append {index : TermIndex} {a b : List Entry} : ShownOnce index (a ++ b) ↔
    ShownOnce index a ∧ ShownOnce (index.registerAll (a.map Entry.term)) b := by
  induction a generalizing index with
  | nil => exact (and_iff_right trivial).symm
  | cons e rest ih =>
      rw [List.cons_append, ShownOnce, ShownOnce, ih, and_assoc]
      rfl

/-- A term that was not in the index is shown with the first of its entries. -/
theorem ShownOnce.exists_shown {index : TermIndex} {entries : List Entry} {t : String}
    (h : ShownOnce index entries) (new : t ∉ index.terms) (ht : t ∈ entries.map Entry.term) :
    ∃ e ∈ entries, e.term = t ∧ e.text ≠ [] := by
  induction entries generalizing index with
  | nil => cases ht
  | cons e rest ih =>
      by_cases he : e.term = t
      · subst he
        exact ⟨e, List.mem_cons_self, rfl, mt h.1.mp new⟩
      · have later : t ∈ rest.map Entry.term := by
          rcases List.mem_cons.mp ht with rfl | later
          · exact absurd rfl he
          · exact later
        have new' : t ∉ (index.register e.term).2.terms := by
          rw [TermIndex.mem_terms_register_iff, not_or]
          exact ⟨new, Ne.symm he⟩
        obtain ⟨e', mem, same, shown⟩ := ih h.2 new' later
        exact ⟨e', List.mem_cons_of_mem e mem, same, shown⟩

/-- From an empty index, an entry is left out exactly if its term has been shown before. -/
theorem ShownOnce.text_eq_nil_iff {before after : List Entry} {e : Entry}
    (h : ShownOnce .empty (before ++ e :: after)) :
    e.text = [] ↔ ∃ e' ∈ before, e'.term = e.term ∧ e'.text ≠ [] := by
  obtain ⟨front, own, -⟩ := shownOnce_append.mp h
  rw [own, TermIndex.mem_registerAll]
  constructor
  · rintro (none | seen)
    · cases none
    · exact front.exists_shown (List.not_mem_nil) seen
  · rintro ⟨e', mem, same, -⟩
    rw [← same]
    exact .inr (List.mem_map_of_mem mem)

/-! ### Runs -/

/-- The entries of a run are those that are met on the way, and each is shown once. -/
def Recorded (n : Node) : Prop :=
  ∀ ⦃σ τ : State⦄ ⦃s : List Char⦄, n.set.Yields σ s τ →
    (n.entries σ).map Entry.content = n.visits.filterMap Node.entry? ∧
      ShownOnce σ.index (n.entries σ)

theorem ownEntry_of_yields {n : Node} {σ τ : State} {s : List Char} (h : n.set.Yields σ s τ) :
    n.ownEntry σ = (n.entry?.map fun content => ⟨content, s⟩).toList := by
  unfold Node.ownEntry
  rw [h]
  cases n.entry? <;> rfl

theorem begun_cons_of_yields {n : Node} {rest : List Node} {σ τ : State} {s : List Char}
    (h : n.set.Yields σ s τ) : begun (n :: rest) σ = (n, σ) :: begun rest τ := by
  rw [begun, h]

theorem map_term_of_map_content {entries : List Entry} {nodes : List Node}
    (h : entries.map Entry.content = nodes.filterMap Node.entry?) :
    entries.map Entry.term = keys nodes := by
  have terms : entries.map Entry.term =
      (entries.map Entry.content).map fun content => String.ofList (indexTerm content) := by
    rw [List.map_map]
    rfl
  rw [terms, h, List.map_filterMap]
  unfold keys
  congr 1
  funext n
  exact (n.key?_eq).symm

theorem recorded_setAll {nodes : List Node} (h : ∀ n ∈ nodes, Recorded n) {σ τ : State}
    {texts : List (List Char)} (run : (setAll nodes).Yields σ texts τ) :
    ((begun nodes σ).flatMap fun x => x.1.entries x.2).map Entry.content =
        (nodes.flatMap Node.visits).filterMap Node.entry? ∧
      ShownOnce σ.index ((begun nodes σ).flatMap fun x => x.1.entries x.2) ∧
      τ.index = σ.index.registerAll
        (((begun nodes σ).flatMap fun x => x.1.entries x.2).map Entry.term) := by
  induction nodes generalizing σ texts with
  | nil =>
      obtain ⟨-, rfl⟩ := yields_setAll_nil.mp run
      exact ⟨rfl, trivial, rfl⟩
  | cons n rest ih =>
      obtain ⟨t, ts, σ', first, others, -⟩ := yields_setAll_cons.mp run
      obtain ⟨content, shown⟩ := h n List.mem_cons_self first
      obtain ⟨content', shown', index'⟩ := ih (fun m hm => h m (List.mem_cons_of_mem n hm)) others
      have index : σ'.index = σ.index.registerAll ((n.entries σ).map Entry.term) := by
        rw [map_term_of_map_content content]
        exact Node.index_eq_of_yields first
      rw [begun_cons_of_yields first, List.flatMap_cons, List.flatMap_cons, List.map_append,
        List.filterMap_append, content, content', shownOnce_append, List.map_append,
        TermIndex.registerAll_append, ← index]
      exact ⟨rfl, ⟨shown, shown'⟩, index'⟩

/-- An entry is left out exactly if its term is in the index when its content has been set. -/
theorem Composed.text_eq_nil_iff {σ σ' τ : State} {n : Node} {texts : List (List Char)}
    {s : List Char} (h : Composed σ n σ' texts s τ) {content : List Inline}
    (hn : n.entry? = some content) :
    s = [] ↔ String.ofList (indexTerm content) ∈ σ'.index.terms := by
  cases h with
  | newEntry new =>
      cases hn
      exact ⟨fun none => absurd none (by simp [Roff.bold, Roff.zeroWidth]),
        fun old => absurd old new⟩
  | oldEntry old =>
      cases hn
      exact ⟨fun _ => old, fun _ => rfl⟩
  | _ => cases hn

theorem filterMap_entry?_opening (n : Node) : n.opening.filterMap Node.entry? = [] := by
  cases n <;> rfl

theorem filterMap_entry?_closing (n : Node) :
    n.closing.filterMap Node.entry? = n.entry?.toList := by
  have alone : [n].filterMap Node.entry? = n.entry?.toList := by
    cases h : n.entry? <;> simp [h]
  cases n with
  | method m => rfl
  | _ => exact alone

theorem recorded (n : Node) : Recorded n := by
  induction n using Node.induction with
  | step n ih =>
      intro σ τ s run
      obtain ⟨texts, σ', parts, composed⟩ := Node.composed_of_yields run
      obtain ⟨content, shown, index⟩ := recorded_setAll ih parts
      rw [n.index_enter σ] at shown index
      rw [Node.entries_eq, ownEntry_of_yields run, Node.visits_eq, List.map_append,
        List.filterMap_append, List.filterMap_append, content, filterMap_entry?_opening,
        filterMap_entry?_closing, shownOnce_append, ← index]
      refine ⟨?_, shown, ?_⟩
      · cases n.entry? <;> rfl
      · cases hn : n.entry? with
        | none => trivial
        | some own => exact ⟨composed.text_eq_nil_iff hn, trivial⟩

/-! ### Pages -/

theorem exists_yields_of_render {style : Style} {d : Document} {text : String}
    (h : render style d = .ok text) : ∃ s τ, (body d.blocks).Yields .initial s τ := by
  unfold render at h
  rw [runFrom_fresh] at h
  split at h
  · next source τ run =>
      have yields : (page style d).Yields .initial source τ := run
      obtain ⟨s, σ, inside, -⟩ := yields_bind.mp yields
      exact ⟨s, σ, inside⟩
  · cases h

theorem Entry.term_eq_iff {e e' : Entry} :
    e.term = e'.term ↔ Inline.directText e.content = Inline.directText e'.content := by
  rw [← indexTerm_eq_iff, Entry.term, Entry.term, String.ofList_inj]

/-- **Which index entries are left out.**  The entries of a page are those outside footnotes.  One
of them is left out exactly if an entry with the same direct text, completed before, has been
shown. -/
theorem text_eq_nil_iff_repeated {style : Style} {d : Document} {text : String}
    (h : render style d = .ok text) :
    ((Node.body d.blocks).entries .initial).map Entry.content =
      (Node.body d.blocks).visits.filterMap Node.entry? ∧
    ∀ before e after, (Node.body d.blocks).entries .initial = before ++ e :: after →
      (e.text = [] ↔ ∃ e' ∈ before,
        Inline.directText e'.content = Inline.directText e.content ∧ e'.text ≠ []) := by
  obtain ⟨s, τ, run⟩ := exists_yields_of_render h
  obtain ⟨content, shown⟩ := recorded (.body d.blocks) run
  refine ⟨content, fun before e after cut => ?_⟩
  rw [cut] at shown
  simp only [shown.text_eq_nil_iff, Entry.term_eq_iff]

/-- A term, the same word in a span, which is another term, and the first term again, as literal
text. -/
theorem text_eq_nil_iff_repeated_verb : ∃ text before e,
    render ⟨.default, ⟨2024, 3, 1, by decide, by decide⟩⟩ ⟨none, [.paragraph
      [.span .index [.text "a"], .span .index [.span .emphasis [.text "a"]],
        .span .index [.verb "a"]]]⟩ = .ok text ∧
    (Node.body [.paragraph [.span .index [.text "a"], .span .index [.span .emphasis [.text "a"]],
      .span .index [.verb "a"]]]).entries .initial = before ++ e :: [] ∧
    before.map Entry.text = ["\\&\\fBa\\fP".toList, "\\&\\fB\\fIa\\fP\\fP".toList] ∧
    e.text = [] ∧ ∃ e' ∈ before,
      Inline.directText e'.content = Inline.directText e.content ∧ e'.text ≠ [] := by
  have texts : ((Node.body [.paragraph [.span .index [.text "a"],
      .span .index [.span .emphasis [.text "a"]], .span .index [.verb "a"]]]).entries
      .initial).map Entry.text =
      ["\\&\\fBa\\fP".toList, "\\&\\fB\\fIa\\fP\\fP".toList] ++ [[]] := by
    decide +kernel
  obtain ⟨before, last, cut, shown, own⟩ := List.map_eq_append_iff.mp texts
  obtain ⟨e, behind, rfl, empty, nil⟩ := List.map_eq_cons_iff.mp own
  obtain rfl := List.map_eq_nil_iff.mp nil
  have rendered : ∃ text, render ⟨.default, ⟨2024, 3, 1, by decide, by decide⟩⟩ ⟨none, [.paragraph
      [.span .index [.text "a"], .span .index [.span .emphasis [.text "a"]],
        .span .index [.verb "a"]]]⟩ = .ok text := ⟨_, rfl⟩
  obtain ⟨text, rendered⟩ := rendered
  exact ⟨text, before, e, rendered, cut, shown, empty,
    ((text_eq_nil_iff_repeated rendered).2 before e [] cut).mp empty⟩

/-- Entries that hold nothing but spans have the same term, the empty one.  So the second of them is
left out although its text has not been met before. -/
theorem not_repeated_of_plain_text : ¬ ∀ (style : Style) (d : Document) (text : String),
    render style d = .ok text →
      ∀ before e after, (Node.body d.blocks).entries .initial = before ++ e :: after →
        e.text = [] → Inline.plainAll e.content = [] ∨ ∃ e' ∈ before,
          Inline.plainAll e'.content = Inline.plainAll e.content ∧ e'.text ≠ [] := by
  intro onlyRepeats
  have pairs : ((Node.body [.paragraph [.span .index [.span .emphasis [.text "foo"]],
      .span .index [.span .emphasis [.text "bar"]]]]).entries .initial).map
        (fun e => (Inline.plainAll e.content, e.text)) =
      [("foo".toList, "\\&\\fB\\fIfoo\\fP\\fP".toList), ("bar".toList, [])] := by
    decide +kernel
  obtain ⟨foo, rest, cut, first, others⟩ := List.map_eq_cons_iff.mp pairs
  obtain ⟨bar, behind, rfl, second, -⟩ := List.map_eq_cons_iff.mp others
  obtain ⟨fooPlain, -⟩ := Prod.mk.inj first
  obtain ⟨barPlain, barText⟩ := Prod.mk.inj second
  have repeated := onlyRepeats ⟨.default, ⟨2024, 3, 1, by decide, by decide⟩⟩
    ⟨none, [.paragraph [.span .index [.span .emphasis [.text "foo"]],
      .span .index [.span .emphasis [.text "bar"]]]]⟩ _ rfl [foo] bar behind cut barText
  rcases repeated with empty | ⟨e, mem, same, -⟩
  · rw [barPlain] at empty
    cases empty
  · rw [List.mem_singleton.mp mem, fooPlain, barPlain] at same
    exact absurd same (by decide)

end ManualPages.Page
