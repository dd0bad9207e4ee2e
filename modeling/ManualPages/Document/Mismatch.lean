import ManualPages.Document.Kind
import ManualPages.Json.Value
import ManualPages.Number.Notation
import ManualPages.Text.Quoted

/-! # Values that are no document

A `Mismatch` says how a JSON value differs from the stored form of what was looked for.  Its message
describes what was found by its JSON type, and numbers and texts also by their value. -/

namespace ManualPages

open Json (Value)

/-- What a reader looked for. -/
inductive Expected where
  | string
  | sequence
  | integer
  | tag
  | record (name : String)
  | node (name : String)
deriving DecidableEq, Repr

namespace Expected

def text : Expected → String
  | string => "a string"
  | sequence => "a sequence"
  | integer => "i64"
  | tag => "variant identifier"
  | record name => "struct " ++ name
  | node name => "internally tagged enum " ++ name

end Expected

/-- The fields of a record in the order in which an array lists them. -/
structure Shape where
  name : String
  fields : Nat
deriving DecidableEq, Repr

namespace Shape

/-- A count of elements, in words. -/
def elements (n : Nat) : String := if n = 1 then "1 element" else s!"{n} elements"

def text (s : Shape) : String := s!"{s.name} with {elements s.fields}"

end Shape

inductive Mismatch where
  | wrongType (found : Value) (expected : Expected)
  | tooLarge (n : Int)
  | noSuchVariant (index : Int) (count : Nat)
  | unknownKind (name : String) (known : List Kind)
  | missing (field : String)
  | tooShort (length : Nat) (shape : Shape)
  | tooLong (length : Nat) (limit : Option Nat)

namespace Mismatch

/-- Text set apart from the words around it. -/
def ticked (s : String) : String := "\x60" ++ s ++ "\x60"

/-- A value as messages describe it. -/
def describe : Value → String
  | .null => "null"
  | .bool b => "boolean " ++ ticked (if b then "true" else "false")
  | .number (.integer n) => "integer " ++ ticked (toString n)
  | .number (.fraction negative x) => "floating point " ++ ticked (x.text negative)
  | .string s => "string " ++ Text.quote s
  | .array _ => "sequence"
  | .object _ => "map"

def message : Mismatch → String
  | wrongType found expected => s!"invalid type: {describe found}, expected {expected.text}"
  | tooLarge n => s!"invalid value: integer {ticked (toString n)}, expected i64"
  | noSuchVariant index count =>
    s!"invalid value: integer {ticked (toString index)}, expected variant index 0 <= i < {count}"
  | unknownKind name known =>
    let names := ", ".intercalate (known.map fun k => ticked k.name)
    s!"unknown variant {ticked name}, expected one of {names}"
  | missing field => s!"missing field {ticked field}"
  | tooShort length shape => s!"invalid length {length}, expected {shape.text}"
  | tooLong length (some limit) =>
    s!"invalid length {length}, expected {Shape.elements limit} in sequence"
  | tooLong length none => s!"invalid length {length}, expected fewer elements in array"

end Mismatch

end ManualPages
