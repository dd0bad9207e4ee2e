/-! # Index terms

The terms of an index in the order in which they were first seen, with a table of their ordinals:
the ordinal of a term is the number of terms before it.  A term is registered once: registering it
again changes nothing.

The list and the table are kept in step.  That they are is a part of an index (`inStep`), so a term
is in the list exactly if it is in the table, and it stands in the list only once. -/

namespace ManualPages

structure TermIndex where
  /-- The ordinal of every term, the latest term first. -/
  ordinals : List (String × Nat)
  terms : List String
  inStep : ∀ t i, ordinals.lookup t = some i ↔ terms[i]? = some t
deriving DecidableEq, Repr

namespace TermIndex

def empty : TermIndex := ⟨[], [], by simp⟩

/-- The place of a term. -/
def ordinal? (index : TermIndex) (term : String) : Option Nat := index.ordinals.lookup term

def size (index : TermIndex) : Nat := index.terms.length

def isEmpty (index : TermIndex) : Bool := index.terms.isEmpty

theorem ordinal?_eq_some_iff {index : TermIndex} {t : String} {i : Nat} :
    index.ordinal? t = some i ↔ index.terms[i]? = some t := index.inStep t i

theorem isSome_ordinal?_iff {index : TermIndex} {t : String} :
    (index.ordinal? t).isSome ↔ t ∈ index.terms := by
  rw [Option.isSome_iff_exists, List.mem_iff_getElem?]
  exact exists_congr fun _ => ordinal?_eq_some_iff

theorem getElem?_concat_eq_some_iff {terms : List String} {term t : String} {i : Nat} :
    (terms ++ [term])[i]? = some t ↔ terms[i]? = some t ∨ t = term ∧ i = terms.length := by
  rw [List.getElem?_append]
  by_cases h : i < terms.length
  · simp [h, Nat.ne_of_lt h]
  · rw [if_neg h, List.getElem?_singleton, List.getElem?_eq_none (Nat.le_of_not_lt h)]
    grind

/-- A new term goes to the end of the list, and its ordinal is the length that the list had. -/
theorem inStep_add {index : TermIndex} {term : String} (new : term ∉ index.terms)
    (t : String) (i : Nat) : ((term, index.size) :: index.ordinals).lookup t = some i ↔
      (index.terms ++ [term])[i]? = some t := by
  rw [getElem?_concat_eq_some_iff, ← index.inStep]
  by_cases h : t = term
  · subst h
    have absent : index.ordinals.lookup t ≠ some i := fun found =>
      new (List.mem_of_getElem? ((index.inStep t i).mp found))
    simp [absent, size, eq_comm]
  · have other : (t == term) = false := beq_false_of_ne h
    simp [List.lookup_cons, other, h]

/-- The index with a term that is not in it yet. -/
def add (index : TermIndex) (term : String) (new : term ∉ index.terms) : TermIndex :=
  ⟨(term, index.size) :: index.ordinals, index.terms ++ [term], inStep_add new⟩

@[simp]
theorem terms_add {index : TermIndex} {term : String} (new : term ∉ index.terms) :
    (index.add term new).terms = index.terms ++ [term] := rfl

/-- Record a term; its ordinal if it is new, `none` if it is not. -/
def register (index : TermIndex) (term : String) : Option Nat × TermIndex :=
  if seen : (index.ordinal? term).isSome then (none, index)
  else (some index.size, index.add term (mt isSome_ordinal?_iff.mpr seen))

theorem register_of_mem {index : TermIndex} {term : String} (h : term ∈ index.terms) :
    index.register term = (none, index) := dif_pos (isSome_ordinal?_iff.mpr h)

theorem register_of_not_mem {index : TermIndex} {term : String} (h : term ∉ index.terms) :
    index.register term = (some index.size, index.add term h) :=
  dif_neg (mt isSome_ordinal?_iff.mp h)

theorem mem_terms_register_iff {index : TermIndex} {term t : String} :
    t ∈ (index.register term).2.terms ↔ t ∈ index.terms ∨ t = term := by
  by_cases h : term ∈ index.terms
  · rw [register_of_mem h]
    constructor
    · exact .inl
    · rintro (ht | rfl)
      · exact ht
      · exact h
  · rw [register_of_not_mem h, terms_add, List.mem_append, List.mem_singleton]

end TermIndex

end ManualPages
