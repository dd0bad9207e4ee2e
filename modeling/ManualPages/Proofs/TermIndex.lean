import ManualPages.TermIndex
import Mathlib.Data.Finset.Card
import Mathlib.Data.List.Induction
import Mathlib.Data.List.Nodup

/-! # Recording many terms

`registerAll` records terms one after the other.

* From an empty index it keeps the first occurrence of every term, in order:
  `terms_registerAll_empty`, `size_registerAll_empty`.
* The list of the terms only grows (`terms_prefix_registerAll`), so a term keeps the ordinal that it
  was given.  `registerAll_empty` puts together what any number of calls does.
* `AllNew`: no term is there already when it is recorded, neither from before nor from the terms
  before it (`allNew_append`).
* What it appends depends only on which of the terms were there before: `AgreeOn.exists_append`. -/

namespace ManualPages.TermIndex

/-- Record terms one after the other. -/
def registerAll (index : TermIndex) (terms : List String) : TermIndex :=
  terms.foldl (fun index term => (index.register term).2) index

theorem registerAll_cons (index : TermIndex) (term : String) (rest : List String) :
    index.registerAll (term :: rest) = (index.register term).2.registerAll rest := rfl

theorem registerAll_append (index : TermIndex) (a b : List String) :
    index.registerAll (a ++ b) = (index.registerAll a).registerAll b := List.foldl_append

theorem mem_registerAll {index : TermIndex} {terms : List String} {t : String} :
    t ∈ (index.registerAll terms).terms ↔ t ∈ index.terms ∨ t ∈ terms := by
  induction terms generalizing index with
  | nil => simp [registerAll]
  | cons term rest ih => rw [registerAll_cons, ih, mem_terms_register_iff, List.mem_cons, or_assoc]

/-- Recorded into an empty index, the terms are there in the order of their first occurrences. -/
theorem terms_registerAll_empty (terms : List String) :
    (empty.registerAll terms).terms = terms.eraseDups := by
  induction terms using List.reverseRecOn with
  | nil => rfl
  | append_singleton before t ih =>
      have seen : t ∈ (empty.registerAll before).terms ↔ t ∈ before := by
        rw [ih, List.mem_eraseDups]
      rw [registerAll_append, registerAll_cons, List.eraseDups_append, ← ih]
      by_cases h : t ∈ before
      · rw [register_of_mem (seen.mpr h)]
        simp [registerAll, List.removeAll, h]
      · rw [register_of_not_mem (mt seen.mp h)]
        have alone : [t].eraseDups = [t] := by simp [List.eraseDups_cons]
        simp [registerAll, List.removeAll, h, alone]

theorem nodup_terms (index : TermIndex) : index.terms.Nodup := by
  rw [List.nodup_iff_getElem?_ne_getElem?]
  intro i j hij hj same
  have atJ : index.terms[j]? = some index.terms[j] := List.getElem?_eq_getElem hj
  have first := ordinal?_eq_some_iff.mpr (same.trans atJ)
  have second := ordinal?_eq_some_iff.mpr atJ
  have places : i = j := Option.some.inj (first.symm.trans second)
  omega

theorem fst_register_eq_some_iff {index : TermIndex} {t : String} {i : ℕ} :
    (index.register t).1 = some i ↔ t ∉ index.terms ∧ i = index.size := by
  by_cases h : t ∈ index.terms
  · simp [register_of_mem h, h]
  · simp [register_of_not_mem h, h, eq_comm]

theorem terms_prefix_register (index : TermIndex) (t : String) :
    index.terms <+: (index.register t).2.terms := by
  by_cases h : t ∈ index.terms
  · rw [register_of_mem h]
  · rw [register_of_not_mem h]
    exact List.prefix_append _ _

theorem terms_prefix_registerAll (index : TermIndex) (terms : List String) :
    index.terms <+: (index.registerAll terms).terms := by
  induction terms generalizing index with
  | nil => exact List.prefix_refl _
  | cons t rest ih => exact (terms_prefix_register index t).trans (ih _)

/-- The ordinal of a term is its place, so it stays when terms are added behind. -/
theorem ordinal?_of_prefix {a b : TermIndex} (h : a.terms <+: b.terms) {t : String} {i : ℕ}
    (found : a.ordinal? t = some i) : b.ordinal? t = some i := by
  rw [ordinal?_eq_some_iff] at found ⊢
  obtain ⟨more, hb⟩ := h
  rw [← hb]
  exact List.getElem?_append_left (List.getElem?_eq_some_iff.mp found).1 |>.trans found

/-- The size is the number of distinct terms. -/
theorem size_registerAll_empty (terms : List String) :
    (empty.registerAll terms).size = terms.toFinset.card := by
  have same : (empty.registerAll terms).terms.toFinset = terms.toFinset := by
    ext t
    simp [mem_registerAll, empty]
  rw [← same, List.toFinset_card_of_nodup (nodup_terms _), size]

/-- **Recording terms.**  After any calls on an empty index, its terms are the first occurrences in
the order of the calls, none of them twice, the ordinal of a term is the place where it stands, and
the size is the number of distinct terms.  One more call gives an ordinal exactly if its term is
new, namely the number of distinct terms before it, and otherwise it changes nothing.  Whatever
calls follow, the terms stay in front of those that are added, and they keep their ordinals. -/
theorem registerAll_empty (calls : List String) :
    (empty.registerAll calls).terms = calls.eraseDups ∧ calls.eraseDups.Nodup ∧
    (∀ t i, (empty.registerAll calls).ordinal? t = some i ↔
      (empty.registerAll calls).terms[i]? = some t) ∧
    (empty.registerAll calls).size = calls.toFinset.card ∧
    (∀ t i, ((empty.registerAll calls).register t).1 = some i ↔
      t ∉ calls ∧ i = calls.toFinset.card) ∧
    (∀ t ∈ calls, (empty.registerAll calls).register t = (none, empty.registerAll calls)) ∧
    ∀ later,
      (empty.registerAll calls).terms <+: (empty.registerAll (calls ++ later)).terms ∧
      ∀ t i, (empty.registerAll calls).ordinal? t = some i →
        (empty.registerAll (calls ++ later)).ordinal? t = some i := by
  have terms := terms_registerAll_empty calls
  have seen : ∀ t, t ∈ (empty.registerAll calls).terms ↔ t ∈ calls := fun t => by
    rw [terms, List.mem_eraseDups]
  refine ⟨terms, terms ▸ nodup_terms _, fun t i => ordinal?_eq_some_iff,
    size_registerAll_empty calls, fun t i => ?_, fun t ht => register_of_mem ((seen t).mpr ht),
    fun later => ?_⟩
  · rw [fst_register_eq_some_iff, seen, size_registerAll_empty]
  · rw [registerAll_append]
    have grown := terms_prefix_registerAll (empty.registerAll calls) later
    exact ⟨grown, fun t i => ordinal?_of_prefix grown⟩

/-- None of the terms is in the index, and each stands only once among them. -/
def AllNew (index : TermIndex) (terms : List String) : Prop :=
  terms.Nodup ∧ ∀ t ∈ terms, t ∉ index.terms

/-- Terms recorded in two runs: those of the second one are new when the first has ended. -/
theorem allNew_append {index : TermIndex} {a b : List String} :
    index.AllNew (a ++ b) ↔ index.AllNew a ∧ (index.registerAll a).AllNew b := by
  unfold AllNew
  rw [List.nodup_append]
  constructor
  · rintro ⟨⟨ha, hb, apart⟩, new⟩
    refine ⟨⟨ha, fun t ht => new t (List.mem_append_left b ht)⟩, hb, fun t ht => ?_⟩
    rw [mem_registerAll, not_or]
    exact ⟨new t (List.mem_append_right a ht), fun hta => apart t hta t ht rfl⟩
  · rintro ⟨⟨ha, newA⟩, hb, newB⟩
    refine ⟨⟨ha, hb, fun t hta u htb e => ?_⟩, fun t ht => ?_⟩
    · subst e
      exact newB t htb (mem_registerAll.mpr (.inr hta))
    · rcases List.mem_append.mp ht with hta | htb
      · exact newA t hta
      · exact fun hi => newB t htb (mem_registerAll.mpr (.inl hi))

/-- Two indexes have the same of these terms. -/
def AgreeOn (terms : List String) (a b : TermIndex) : Prop :=
  ∀ t ∈ terms, t ∈ a.terms ↔ t ∈ b.terms

theorem AgreeOn.mono {terms fewer : List String} {a b : TermIndex} (h : AgreeOn terms a b)
    (hs : fewer ⊆ terms) : AgreeOn fewer a b := fun t ht => h t (hs ht)

theorem AgreeOn.registerAll {terms : List String} {a b : TermIndex} (h : AgreeOn terms a b)
    (more : List String) : AgreeOn terms (a.registerAll more) (b.registerAll more) := by
  intro t ht
  rw [mem_registerAll, mem_registerAll, h t ht]

/-- Indexes that agree on a term both have it or both get it. -/
theorem AgreeOn.register_cases {terms : List String} {a b : TermIndex} {term : String}
    (h : AgreeOn terms a b) (ht : term ∈ terms) :
    (a.register term = (none, a) ∧ b.register term = (none, b)) ∨
    ∃ (ha : term ∉ a.terms) (hb : term ∉ b.terms),
      a.register term = (some a.size, a.add term ha) ∧
        b.register term = (some b.size, b.add term hb) := by
  by_cases ha : term ∈ a.terms
  · have hb := (h term ht).mp ha
    exact .inl ⟨register_of_mem ha, register_of_mem hb⟩
  · have hb : term ∉ b.terms := fun hb => ha ((h term ht).mpr hb)
    exact .inr ⟨ha, hb, register_of_not_mem ha, register_of_not_mem hb⟩

/-- Recording terms on which two indexes agree appends the same to both. -/
theorem AgreeOn.exists_append {terms : List String} {a b : TermIndex} (h : AgreeOn terms a b) :
    ∃ new, (a.registerAll terms).terms = a.terms ++ new ∧
      (b.registerAll terms).terms = b.terms ++ new := by
  induction terms generalizing a b with
  | nil => exact ⟨[], by simp [TermIndex.registerAll]⟩
  | cons term rest ih =>
      have others : AgreeOn rest a b := h.mono (List.subset_cons_self term rest)
      rw [registerAll_cons, registerAll_cons]
      rcases h.register_cases (List.mem_cons_self ..) with ⟨ea, eb⟩ | ⟨ha, hb, ea, eb⟩
      · rw [ea, eb]
        exact ih others
      · have after := others.registerAll [term]
        rw [registerAll_cons, registerAll_cons, ea, eb] at after
        obtain ⟨new, ha, hb⟩ := ih after
        refine ⟨term :: new, ?_, ?_⟩
        · rw [ea]
          exact ha.trans (List.append_assoc _ _ _)
        · rw [eb]
          exact hb.trans (List.append_assoc _ _ _)

end ManualPages.TermIndex
