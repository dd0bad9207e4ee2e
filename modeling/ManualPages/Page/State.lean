import ManualPages.Numbering
import ManualPages.TermIndex

/-! # Setting a page

A page is set by steps that carry a `State`: the numbers of the lists being set and the index terms
met so far.  A step may fail; the state it has reached by then is kept. -/

namespace ManualPages.Page

/-- Why a document cannot be set. -/
inductive Fault where
  | malformedSignature (descriptor : String)
  | unresolvableReference (text : String)
deriving DecidableEq, Repr

namespace Fault

def message : Fault → String
  | malformedSignature descriptor =>
    s!"malformed method signature '{descriptor}': expected index arguments and a value " ++
      "separated by a comma"
  | unresolvableReference text => s!"cannot resolve reference '{text}': unsupported label kind"

end Fault

structure State where
  numbering : Numbering
  index : TermIndex
deriving DecidableEq, Repr

namespace State

/-- Nothing has been set. -/
def initial : State := ⟨.empty, .empty⟩

end State

/-- A step: what it makes of a state, and the state after it. -/
abbrev Setting (α : Type) := ExceptT Fault (StateM State) α

namespace Setting

/-- Run a step from a state. -/
def runFrom {α : Type} (step : Setting α) (s : State) : Except Fault α × State := step.run s

/-- Record an index term; is it new? -/
def register (term : List Char) : Setting Bool := do
  let s ← get
  let (ordinal, index) := s.index.register (String.ofList term)
  set { s with index := index }
  pure ordinal.isSome

/-- The number of the next item of the innermost numbered list. -/
def nextNumber : Setting Nat := do
  let s ← get
  let (n, numbering) := s.numbering.next
  set { s with numbering := numbering }
  pure n

/-- Set a numbered list: its numbering ends with it, also when it fails. -/
def numbered {α : Type} (step : Setting α) : Setting α :=
  ExceptT.mk fun s =>
    let (result, s') := step.runFrom { s with numbering := s.numbering.enter }
    (result, { s' with numbering := s'.numbering.leave })

end Setting

end ManualPages.Page
