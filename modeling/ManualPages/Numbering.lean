/-! # Numbering nested lists

A counter for each numbered list that is being written, the innermost first. -/

namespace ManualPages

structure Numbering where
  counters : List Nat
deriving DecidableEq, Repr

namespace Numbering

/-- No list is being written. -/
def empty : Numbering := ⟨[]⟩

/-- Begin a list. -/
def enter (n : Numbering) : Numbering := ⟨0 :: n.counters⟩

/-- End the innermost list. -/
def leave (n : Numbering) : Numbering := ⟨n.counters.tail⟩

/-- The number of the next item of the innermost list.  Outside every list a new one begins. -/
def next (n : Numbering) : Nat × Numbering :=
  match n.counters with
  | [] => (1, ⟨[1]⟩)
  | k :: rest => (k + 1, ⟨(k + 1) :: rest⟩)

end Numbering

end ManualPages
