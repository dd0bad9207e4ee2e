/-! # Reading UTF-8

`decode` reads the well-formed byte sequences of the Unicode standard from the front of a list of
bytes and returns what it did not read: nothing if the bytes are well-formed, else what begins with
the first ill-formed sequence.

`splitAt?` cuts a text at a byte offset; it does not cut a character. -/

namespace ManualPages.Utf8

/-- The bytes that may follow the first byte of a multi-byte sequence: the admissible range of the
second byte and the number of bytes after it. -/
def shape (first : Nat) : Option (Nat × Nat × Nat) :=
  if 0xC2 ≤ first ∧ first ≤ 0xDF then some (0x80, 0xBF, 0)
  else if first = 0xE0 then some (0xA0, 0xBF, 1)
  else if first = 0xED then some (0x80, 0x9F, 1)
  else if 0xE1 ≤ first ∧ first ≤ 0xEF then some (0x80, 0xBF, 1)
  else if first = 0xF0 then some (0x90, 0xBF, 2)
  else if 0xF1 ≤ first ∧ first ≤ 0xF3 then some (0x80, 0xBF, 2)
  else if first = 0xF4 then some (0x80, 0x8F, 2)
  else none

/-- Append the six payload bits of each of the next `count` continuation bytes to `acc`. -/
def continuation : (count acc : Nat) → List UInt8 → Option (Nat × List UInt8)
  | 0, acc, s => some (acc, s)
  | _ + 1, _, [] => none
  | count + 1, acc, b :: s =>
    if 0x80 ≤ b.toNat ∧ b.toNat ≤ 0xBF then continuation count (acc * 64 + b.toNat % 64) s
    else none

/-- One character from the front of the bytes. -/
def next? : List UInt8 → Option (Char × List UInt8)
  | [] => none
  | b :: s =>
    let first := b.toNat
    if first < 0x80 then some (Char.ofNat first, s)
    else do
      let (low, high, more) ← shape first
      let second ← s.head?
      if low ≤ second.toNat ∧ second.toNat ≤ high then
        let lead := if more = 0 then first % 32 else if more = 1 then first % 16 else first % 8
        let (n, rest) ← continuation more (lead * 64 + second.toNat % 64) s.tail
        some (Char.ofNat n, rest)
      else none

/-- Read at most `fuel` characters. -/
def decodeUpTo : (fuel : Nat) → List UInt8 → List Char × List UInt8
  | 0, s => ([], s)
  | fuel + 1, s =>
    match next? s with
    | none => ([], s)
    | some (c, rest) =>
      let (cs, left) := decodeUpTo fuel rest
      (c :: cs, left)

/-- The characters of the longest well-formed front part, and the bytes after it. -/
def decode (s : List UInt8) : List Char × List UInt8 := decodeUpTo s.length s

/-- The text that the bytes encode, if they are well-formed. -/
def text? (s : List UInt8) : Option String :=
  match decode s with
  | (cs, []) => some (String.ofList cs)
  | (_, _ :: _) => none

/-- The bytes of a text. -/
def encode (s : String) : List UInt8 := s.toUTF8.toList

/-- The number of bytes of a text. -/
def size (s : List Char) : Nat := (encode (String.ofList s)).length

/-- The texts before and after the first `n` bytes; `none` if there are fewer, or if a character
extends across that place. -/
def splitAt? : (n : Nat) → List Char → Option (List Char × List Char)
  | 0, s => some ([], s)
  | _ + 1, [] => none
  | n + 1, c :: s =>
    if c.utf8Size ≤ n + 1 then (splitAt? (n + 1 - c.utf8Size) s).map fun p => (c :: p.1, p.2)
    else none

end ManualPages.Utf8
