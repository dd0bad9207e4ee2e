import ManualPages.Proofs.Page.Visits
import ManualPages.Proofs.Roff.Unescape
import ManualPages.Proofs.TermIndex

/-! # What the index holds

Setting a page afresh begins with an empty index and records the terms of the index entries as they
are met: an entry after the entries that it holds, and nothing in a footnote.

* `Node.key?_index_eq_iff`: entries have the same term exactly if their direct text is the same, however
  it is divided among nodes.
* `keys_visits_index`, `keys_visits_footnote`: the order of the entries.
* `index_eq_first_occurrences`: after the run the index holds the first occurrences of the terms
  that were met before the first fault, and each has the number of its place for its ordinal. -/

namespace ManualPages.Page

open Setting

/-! ### Terms -/

theorem indexTerm_eq_iff {a b : List Inline} :
    indexTerm a = indexTerm b ↔ Inline.directText a = Inline.directText b :=
  Roff.escape_injective.eq_iff

/-- Two index entries have the same term exactly if their direct text is the same. -/
theorem Node.key?_index_eq_iff {a b : List Inline} :
    (Node.inline (.span .index a)).key? = (Node.inline (.span .index b)).key? ↔
      Inline.directText a = Inline.directText b := by
  rw [← indexTerm_eq_iff, Node.key?, Node.key?, Option.some.injEq, String.ofList_inj]

/-! ### The order of entries -/

/-- An entry comes after the entries that it holds. -/
theorem keys_visits_index (content : List Inline) :
    keys (Node.inline (.span .index content)).visits =
      keys (Node.running content).visits ++ [String.ofList (indexTerm content)] := by
  rw [Node.visits_eq]
  simp [keys, Node.opening, Node.parts, Node.closing, Node.key?]

/-- Nothing in a footnote is met. -/
theorem keys_visits_footnote (content : List Inline) :
    keys (Node.inline (.span .footnote content)).visits = [] := by
  rw [Node.visits_eq]
  simp [keys, Node.opening, Node.parts, Node.closing, Node.key?]

/-- An entry within an entry, one in a footnote, and a term that is met again in other nodes. -/
example : keys (Node.body [.paragraph [.span .index [.span .index [.text "b"], .text "a-"],
    .span .footnote [.span .index [.text "c"]], .span .index [.verb "a", .text "-"]]]).visits =
      ["b", "a\\-", "a\\-"] := by decide +kernel

/-! ### Where a run stops -/

/-- Nodes are cut where the first fault is: what comes before it has none, and what comes after
begins with it. -/
theorem exists_cut_at_fault (nodes : List Node) : ∃ done rest, nodes = done ++ rest ∧
    (∀ n ∈ done, n.fault? = none) ∧ keysDone nodes = keys done ∧
    (firstFault? nodes = none → rest = []) ∧
    ∀ e, firstFault? nodes = some e → ∃ n after, rest = n :: after ∧ n.fault? = some e := by
  let quiet : Node → Bool := fun n => n.fault?.isNone
  have clean : ∀ n ∈ nodes.takeWhile quiet, n.fault? = none := by
    intro n hn
    have silent : quiet n = true := List.mem_takeWhile_imp hn
    exact Option.isNone_iff_eq_none.mp silent
  have cut : nodes.takeWhile quiet ++ nodes.dropWhile quiet = nodes :=
    List.takeWhile_append_dropWhile
  have first : firstFault? nodes = firstFault? (nodes.dropWhile quiet) := by
    have none : firstFault? (nodes.takeWhile quiet) = none := List.findSome?_eq_none_iff.mpr clean
    unfold firstFault? at none ⊢
    rw [← cut, List.findSome?_append, none, Option.none_or, cut]
  refine ⟨nodes.takeWhile quiet, nodes.dropWhile quiet, cut.symm, clean, rfl, ?_⟩
  rw [first]
  cases h : nodes.dropWhile quiet with
  | nil => exact ⟨fun _ => rfl, fun e he => by simp [firstFault?] at he⟩
  | cons n after =>
      have loud : n.fault?.isNone = false := Text.head?_dropWhile quiet nodes n (by simp [h])
      obtain ⟨e, he⟩ : ∃ e, n.fault? = some e := by
        rw [← Option.isSome_iff_exists, ← Option.not_isNone, loud]
        rfl
      have found : firstFault? (n :: after) = some e := by simp [firstFault?, he]
      rw [found]
      refine ⟨fun hn => by simp at hn, fun e' hs => ⟨n, after, rfl, ?_⟩⟩
      rw [he, hs]

/-! ### Runs -/

theorem runFrom_fresh (style : Style) (d : Document) (σ : State) :
    (fresh style d).runFrom σ = (page style d).runFrom .initial := rfl

/-- **What the index holds.**  Cut what is met on the way through a document at the first fault, if
there is one: the run fails with this fault, and it succeeds if there is none.  Then the index holds
the first occurrences of the terms met before, in order, and the ordinal of a term is its place
among them.  An entry is met after the entries that it holds, nothing in a footnote is met, and
entries share a term exactly if they share their direct text. -/
theorem index_eq_first_occurrences (style : Style) (d : Document) (σ : State) :
    (∃ done rest, (Node.body d.blocks).visits = done ++ rest ∧ (∀ n ∈ done, n.fault? = none) ∧
      (match ((fresh style d).runFrom σ).1 with
        | .ok _ => rest = []
        | .error e => ∃ n after, rest = n :: after ∧ n.fault? = some e) ∧
      ((fresh style d).runFrom σ).2.index.terms = (keys done).eraseDups ∧
      ∀ k i, ((fresh style d).runFrom σ).2.index.ordinal? k = some i ↔
        (keys done).eraseDups[i]? = some k) ∧
    (∀ content, keys (Node.inline (.span .index content)).visits =
      keys (Node.running content).visits ++ [String.ofList (indexTerm content)]) ∧
    (∀ content, keys (Node.inline (.span .footnote content)).visits = []) ∧
    ∀ a b : List Inline,
      (Node.inline (.span .index a)).key? = (Node.inline (.span .index b)).key? ↔
        Inline.directText a = Inline.directText b := by
  refine ⟨?_, keys_visits_index, keys_visits_footnote, fun a b => Node.key?_index_eq_iff⟩
  obtain ⟨fails, recorded⟩ := follows_page style d .initial
  obtain ⟨done, rest, cut, clean, keysDone_eq, finished, stopped⟩ :=
    exists_cut_at_fault (Node.body d.blocks).visits
  have terms : ((page style d).runFrom .initial).2.index.terms = (keys done).eraseDups := by
    rw [recorded, keysDone_eq]
    exact TermIndex.terms_registerAll_empty (keys done)
  rw [runFrom_fresh]
  refine ⟨done, rest, cut, clean, ?_, terms, fun k i => ?_⟩
  · cases h : ((page style d).runFrom .initial).1 with
    | ok s =>
        refine finished (Option.eq_none_iff_forall_ne_some.mpr fun e he => ?_)
        have failed := (fails e).mpr he
        rw [h] at failed
        cases failed
    | error e => exact stopped e ((fails e).mp h)
  · rw [TermIndex.ordinal?_eq_some_iff, terms]

end ManualPages.Page
