import ManualPages.Conversion

/-! # Reports

What the user is told about a failed conversion: what went wrong, what to do about it and, if the
input is no JSON, where in it the reader stopped.  The place is marked in the input's bytes by an
offset and a length; the mark never reaches beyond the end. -/

namespace ManualPages

attribute [local instance (2000)] Zero.ofOfNat0

/-- A mark in a text: a remark on `length` bytes from `offset` on. -/
structure Mark where
  text : String
  offset : Nat
  length : Nat
deriving DecidableEq, Repr

/-- A report; the source and the mark in it belong together. -/
structure Report where
  message : String
  advice? : Option String
  place? : Option (String × Mark)
deriving DecidableEq, Repr

/-- The name and the text of an input. -/
structure Input where
  name : String
  text : String
deriving DecidableEq, Repr

namespace Report

/-- The lengths of the lines of a text, their newlines included. -/
def lineLengths : List UInt8 → List Nat
  | [] => []
  | b :: s =>
    if b = Json.Position.newline then 1 :: lineLengths s
    else
      match lineLengths s with
      | [] => [1]
      | n :: rest => (n + 1) :: rest

/-- The offset of a position, but at most the length of the text. -/
def offsetOf (bytes : List UInt8) (position : Json.Position) : Nat :=
  let start := ((lineLengths bytes).take (position.line - 1)).sum
  min (start + (position.column - 1)) bytes.length

/-- The mark at a position. -/
def markAt (text : String) (position : Json.Position) : Mark :=
  let bytes := Utf8.encode text
  let offset := offsetOf bytes position
  { text := s!"error occurred here (line {position.line}, column {position.column})"
    offset := offset
    length := if offset < bytes.length then 1 else 0 }

/-- The names of kinds, in a row. -/
def names (kinds : List Kind) : String := ", ".intercalate (kinds.map Kind.name)

/-- What to do about an error. -/
def adviceOn : ConversionError → Option String
  | .load (.cannotOpen _) => none
  | .load (.misplaced _) =>
    some ("blocks can be " ++ names Kind.blocks ++ "; inline content can be " ++
      names Kind.inlines)
  | .load _ => some "the input must be the JSON document tree produced by the RD parser"
  | .page (.malformedSignature _) =>
    some "write subscript assignment as \x60Owner#[]=(index, value)\x60"
  | .page (.unresolvableReference _) => some "references can only point to a URL or a label"
  | .samePath _ => some "rename the input file or pass --stdout"
  | .output _ => none

/-- The report on an error, given the input if it is known.  Lines count from one; line zero is no
position. -/
def ofError (e : ConversionError) (input? : Option Input) : Report where
  message := e.message
  advice? := adviceOn e
  place? :=
    match e, input? with
    | .load (.notJson s), some input =>
      if 0 < s.position.line then some (input.name, markAt input.text s.position) else none
    | _, _ => none

theorem offsetOf_le (bytes : List UInt8) (position : Json.Position) :
    offsetOf bytes position ≤ bytes.length :=
  Nat.min_le_right _ _

end Report

end ManualPages
