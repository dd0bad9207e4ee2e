import ManualPages.Page.Render
import ManualPages.Proofs.Page.Node
import ManualPages.Proofs.Signature
import ManualPages.Proofs.TermIndex
import Mathlib.Data.List.TakeWhile

/-! # What is met on the way

`Node.visits` lists a node and all that it holds outside footnotes in the order in which they are
looked at: a method before its description, every other node after what it holds.  Two things can
happen at a visit: the node has a fault (`Node.fault?`), or it is an index entry with a term
(`Node.key?`).

* `Node.follows`: setting a node fails with the first fault of its visits, if there is one, and
  records the terms that are met before.  This does not depend on the state.
* `page_fails_iff_visits`: so does setting a page. -/

namespace ManualPages.Page

open Setting

/-! ### Visits -/

namespace Node

/-- The node, if it is looked at before its parts: a method, for its signature. -/
def opening : Node → List Node
  | method m => [method m]
  | _ => []

/-- The node, if it is looked at when its parts have been set. -/
def closing : Node → List Node
  | method _ => []
  | n => [n]

/-- The node and all that it holds outside footnotes, in the order in which they are looked at. -/
def visits (n : Node) : List Node :=
  n.opening ++ n.parts.attach.flatMap (fun p => visits p.1) ++ n.closing
termination_by n.size
decreasing_by exact size_lt_of_mem_parts p.2

theorem visits_eq (n : Node) : n.visits = n.opening ++ n.parts.flatMap visits ++ n.closing := by
  rw [visits, List.flatMap_subtype, List.unattach_attach]
  intro p hp
  rfl

/-- The fault that a node has itself: a reference without a meaning, or a subscript assignment whose
arguments have no comma between index and value. -/
def fault? : Node → Option Fault
  | inline (.reference .unsupported content) =>
    some (.unresolvableReference (Inline.plainText content))
  | method m =>
    let signature := Signature.parse m.descriptor.toList
    if signature.name = ['[', ']', '='] ∧ ',' ∉ Signature.withoutParens signature.args then
      some (.malformedSignature m.descriptor)
    else none
  | _ => none

/-- The term of an index entry. -/
def key? : Node → Option String
  | inline (.span .index content) => some (String.ofList (indexTerm content))
  | _ => none

theorem fault?_method_eq_none_iff {m : Method} : (method m).fault? = none ↔
    (Signature.parse m.descriptor.toList).show? ≠ none := by
  rw [Ne, Signature.show?_eq_none_iff]
  simp [fault?]

end Node

/-- The first fault among the nodes. -/
def firstFault? (nodes : List Node) : Option Fault := nodes.findSome? Node.fault?

/-- The terms of the index entries among the nodes. -/
def keys (nodes : List Node) : List String := nodes.filterMap Node.key?

/-- The terms of the index entries before the first fault. -/
def keysDone (nodes : List Node) : List String := keys (nodes.takeWhile fun n => n.fault?.isNone)

theorem keysDone_subset (nodes : List Node) : keysDone nodes ⊆ keys nodes := by
  intro k hk
  obtain ⟨n, hn, e⟩ := List.mem_filterMap.mp hk
  exact List.mem_filterMap.mpr ⟨n, List.takeWhile_subset _ hn, e⟩

theorem isNone_of_firstFault?_eq_none {nodes : List Node} (h : firstFault? nodes = none) :
    ∀ n ∈ nodes, n.fault?.isNone = true := by
  intro n hn
  rw [List.findSome?_eq_none_iff.mp h n hn]
  rfl

theorem keysDone_of_none {nodes : List Node} (h : firstFault? nodes = none) :
    keysDone nodes = keys nodes := by
  unfold keysDone
  rw [List.takeWhile_eq_self_iff.mpr (isNone_of_firstFault?_eq_none h)]

theorem keysDone_append_of_none {a : List Node} (h : firstFault? a = none) (b : List Node) :
    keysDone (a ++ b) = keysDone a ++ keysDone b := by
  rw [keysDone_of_none h]
  unfold keysDone keys
  rw [List.takeWhile_append_of_pos (isNone_of_firstFault?_eq_none h), List.filterMap_append]

theorem keysDone_append_of_some {a : List Node} {e : Fault} (h : firstFault? a = some e)
    (b : List Node) : keysDone (a ++ b) = keysDone a := by
  obtain ⟨before, n, after, rfl, hn, hb⟩ := List.findSome?_eq_some_iff.mp h
  have clean : ∀ m ∈ before, m.fault?.isNone = true := by
    intro m hm
    rw [hb m hm]
    rfl
  have stop : ∀ rest, (n :: rest).takeWhile (fun n => n.fault?.isNone) = [] := by
    intro rest
    rw [List.takeWhile_cons, hn]
    rfl
  unfold keysDone
  rw [List.append_assoc, List.takeWhile_append_of_pos clean, List.takeWhile_append_of_pos clean,
    List.cons_append, stop, stop]

/-! ### Steps -/

/-- The step does what these visits ask for: it fails with their first fault, if there is one, and
records the terms that are met before. -/
def Follows {α : Type} (nodes : List Node) (step : Setting α) : Prop :=
  ∀ σ, (∀ e, (step.runFrom σ).1 = .error e ↔ firstFault? nodes = some e) ∧
    (step.runFrom σ).2.index = σ.index.registerAll (keysDone nodes)

section closure

variable {α β : Type}

theorem Follows.pure (a : α) : Follows [] (pure a) := by
  intro σ
  rw [runFrom_pure]
  exact ⟨by simp [firstFault?], rfl⟩

/-- Steps that follow one another: the second one runs only if the first one meets no fault. -/
theorem Follows.bind {a b : List Node} {step : Setting α} {f : α → Setting β} (h : Follows a step)
    (hf : ∀ x, Follows b (f x)) : Follows (a ++ b) (step >>= f) := by
  intro σ
  obtain ⟨he, hi⟩ := h σ
  unfold firstFault?
  rw [runFrom_bind, List.findSome?_append]
  rcases hr : step.runFrom σ with ⟨e | x, τ⟩
  · rw [hr] at he hi
    have first : firstFault? a = some e := (he e).mp rfl
    rw [keysDone_append_of_some first]
    refine ⟨fun e' => ?_, hi⟩
    rw [firstFault?] at first
    simp [first]
  · rw [hr] at he hi
    have none : firstFault? a = none := by
      rw [Option.eq_none_iff_forall_ne_some]
      intro e h
      cases (he e).mpr h
    obtain ⟨he', hi'⟩ := hf x τ
    rw [keysDone_append_of_none none, TermIndex.registerAll_append, ← hi]
    refine ⟨fun e' => ?_, hi'⟩
    rw [firstFault?] at none
    rw [none, Option.none_or]
    exact he' e'

theorem Follows.map {nodes : List Node} {step : Setting α} (h : Follows nodes step) (f : α → β) :
    Follows nodes (f <$> step) := by
  rw [map_eq_pure_bind, ← List.append_nil nodes]
  exact h.bind fun x => .pure (f x)

theorem Follows.throw {n : Node} {e : Fault} (h : n.fault? = some e) :
    Follows [n] (throw e : Setting α) := by
  intro σ
  rw [runFrom_throw]
  refine ⟨fun e' => ?_, ?_⟩
  · simp [firstFault?, h]
  · simp [keysDone, keys, h, TermIndex.registerAll]

theorem Follows.pure_of_quiet {n : Node} (hf : n.fault? = none) (hk : n.key? = none) (a : α) :
    Follows [n] (Pure.pure a) := by
  intro σ
  rw [runFrom_pure]
  refine ⟨fun e => ?_, ?_⟩
  · simp [firstFault?, hf]
  · simp [keysDone, keys, hf, hk, TermIndex.registerAll]

theorem Follows.register {n : Node} {term : List Char} (hf : n.fault? = none)
    (hk : n.key? = some (String.ofList term)) : Follows [n] (register term) := by
  intro σ
  rw [runFrom_register]
  refine ⟨fun e => ?_, ?_⟩
  · simp [firstFault?, hf]
  · simp [keysDone, keys, hf, hk, TermIndex.registerAll]

theorem Follows.nextNumber : Follows [] nextNumber := by
  intro σ
  rw [runFrom_nextNumber]
  exact ⟨by simp [firstFault?], rfl⟩

theorem Follows.numbered {nodes : List Node} {step : Setting α} (h : Follows nodes step) :
    Follows nodes (numbered step) := by
  intro σ
  rw [runFrom_numbered]
  exact h ⟨σ.numbering.enter, σ.index⟩

end closure

/-! ### Nodes -/

theorem follows_setAll {nodes : List Node} (h : ∀ n ∈ nodes, Follows n.visits n.set) :
    Follows (nodes.flatMap Node.visits) (setAll nodes) := by
  induction nodes with
  | nil => exact .pure []
  | cons n rest ih =>
      have first := h n (by simp)
      have others := ih fun m hm => h m (List.mem_cons_of_mem n hm)
      rw [setAll, List.flatMap_cons]
      exact first.bind fun t => others.map (t :: ·)

theorem follows_signature (m : Method) : Follows [.method m] (signature m.descriptor) := by
  unfold signature
  split
  · next shown h =>
      have quiet : (Node.method m).fault? = none := by
        rw [Node.fault?_method_eq_none_iff, h]
        simp
      exact .pure_of_quiet quiet rfl shown
  · next h =>
      have fault : (Node.method m).fault? = some (.malformedSignature m.descriptor) := by
        rw [Node.fault?, if_pos]
        exact Signature.show?_eq_none_iff.mp h
      exact .throw fault

theorem follows_heading (n : Node) : Follows n.opening n.heading := by
  cases n with
  | numberedEntry i => exact Follows.nextNumber.map _
  | method m => exact (follows_signature m).map _
  | _ => exact .pure []

/-- An index entry is recorded, and a reference may fail; nothing else happens when the parts have
been set. -/
theorem follows_finish (n : Node) (heading : List Char) (texts : List (List Char)) :
    Follows n.closing (n.finish heading texts) := by
  rcases n with node | content | ⟨context, b⟩ | i | i | d | m | content
  case inline =>
    rcases node with s | s | ⟨role, content⟩ | ⟨target, content⟩
    case span =>
      cases role
      case index => exact (Follows.register rfl rfl).bind fun new => .pure _
      all_goals exact .pure_of_quiet rfl rfl _
    case reference =>
      rcases target with url | ⟨name, _ | file⟩ | _
      case unsupported => exact .throw rfl
      all_goals exact .pure_of_quiet rfl rfl _
    all_goals exact .pure_of_quiet rfl rfl _
  case method => exact .pure _
  all_goals exact .pure_of_quiet rfl rfl _

/-- **What setting a node does.**  It fails with the first fault among the visits, and records the
terms of the index entries before it. -/
theorem Node.follows (n : Node) : Follows n.visits n.set := by
  induction n using Node.induction with
  | step n ih =>
      have parts := (follows_heading n).bind fun heading =>
        (follows_setAll ih).bind fun texts => follows_finish n heading texts
      rw [← List.append_assoc, ← Node.visits_eq] at parts
      rw [Node.set_eq]
      unfold Node.within
      split
      · exact parts.numbered
      · exact parts

/-- A node that has been set has recorded all its terms. -/
theorem Node.index_eq_of_yields {n : Node} {σ τ : State} {s : List Char} (h : n.set.Yields σ s τ) :
    τ.index = σ.index.registerAll (keys n.visits) := by
  obtain ⟨fails, recorded⟩ := n.follows σ
  rw [h] at fails recorded
  have clean : firstFault? n.visits = none := by
    rw [Option.eq_none_iff_forall_ne_some]
    intro e he
    cases (fails e).mpr he
  rw [keysDone_of_none clean] at recorded
  exact recorded

/-! ### Pages -/

theorem follows_page (style : Style) (d : Document) :
    Follows (Node.body d.blocks).visits (page style d) := by
  rw [← List.append_nil (Node.visits _)]
  exact (Node.follows (.body d.blocks)).bind fun source => .pure _

/-- **When a page cannot be set.**  In every state, setting a page fails exactly if it holds a node
with a fault outside footnotes, and it fails with the fault of the first one. -/
theorem page_fails_iff_visits (style : Style) (d : Document) (σ : State) :
    ((∃ e, ((page style d).runFrom σ).1 = .error e) ↔
      ∃ n ∈ (Node.body d.blocks).visits, ∃ e, n.fault? = some e) ∧
    ∀ e, ((page style d).runFrom σ).1 = .error e ↔ ∃ before n after,
      (Node.body d.blocks).visits = before ++ n :: after ∧ n.fault? = some e ∧
        ∀ m ∈ before, m.fault? = none := by
  have fails := (follows_page style d σ).1
  constructor
  · simp only [fails]
    rw [← Option.isSome_iff_exists]
    unfold firstFault?
    rw [List.findSome?_isSome_iff]
    simp only [Option.isSome_iff_exists]
  · intro e
    rw [fails e]
    unfold firstFault?
    rw [List.findSome?_eq_some_iff]

/-- The second mention of an index term is left out, but what it holds is still looked at. -/
example (style : Style) : ((page style ⟨none, [.paragraph [.span .index [.text "a"],
    .span .index [.text "a", .reference .unsupported [.text "b"]]]]⟩).runFrom .initial).1 =
      .error (.unresolvableReference "b") := rfl

end ManualPages.Page
