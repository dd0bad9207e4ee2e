import ManualPages.Json.Value
import ManualPages.Number.Notation

/-! # Writing JSON

A value is written on one line without blanks.  Quotes, backslashes and all characters that may end
a line or are controls are escaped inside texts; every other character stands for itself. -/

namespace ManualPages.Json

namespace Printer

/-- The last four hexadecimal digits of a number. -/
def hexQuad (n : Nat) : List Char :=
  [n / 4096 % 16, n / 256 % 16, n / 16 % 16, n % 16].map Nat.digitChar

/-- Is the character a control or a line separator? -/
def breaksLine (c : Char) : Bool :=
  c.toNat < 0x20 || (0x7F ≤ c.toNat && c.toNat < 0xA0) || c.toNat == 0x2028 || c.toNat == 0x2029

def character (c : Char) : List Char :=
  if c = '"' ∨ c = '\\' then ['\\', c]
  else if breaksLine c then ['\\', 'u'] ++ hexQuad c.toNat
  else [c]

def string (s : String) : String := String.ofList ('"' :: s.toList.flatMap character ++ ['"'])

def number : Number → String
  | .integer n => toString n
  | .fraction negative x => x.text negative

mutual

def value : Value → String
  | .null => "null"
  | .bool b => if b then "true" else "false"
  | .number n => number n
  | .string s => string s
  | .array items => "[" ++ ",".intercalate (values items) ++ "]"
  | .object fields => "\x7b" ++ ",".intercalate (members fields) ++ "\x7d"

def values : List Value → List String
  | [] => []
  | v :: rest => value v :: values rest

def members : List (String × Value) → List String
  | [] => []
  | (key, v) :: rest => (string key ++ ":" ++ value v) :: members rest

end

end Printer

namespace Value

/-- The value as JSON on one line. -/
def print (v : Value) : String := Printer.value v

end Value

end ManualPages.Json
